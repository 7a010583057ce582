import Mathlib.Data.List.Induction
import Mathlib.Data.Nat.Digits.Defs
import Mathlib.Data.Set.List
import FirmwareTests.Text.Segments

/-!
# The value of a numeral

A numeral is told here by its digits, which are numbers below ten, and its value is the
number that has them to the base ten. Reading a count gives this value, and nothing when it
does not fit a word of 64 bits.
-/

namespace FirmwareTests
namespace Text

def digit (d : Fin 10) : Char :=
  Char.ofNat ('0'.toNat + d)

/-- A text of one or more digits that may follow a plus sign, and the number that it writes. -/
def IsNumeral (cs : List Char) (number : Nat) : Prop :=
  ∃ digits : List (Fin 10), digits ≠ [] ∧
    (cs = digits.map digit ∨ cs = '+' :: digits.map digit) ∧
      Nat.ofDigits 10 (digits.reverse.map Fin.val) = number

theorem toNat_digit (d : Fin 10) : (digit d).toNat = '0'.toNat + d := by
  decide +revert

theorem isDigit_digit (d : Fin 10) : (digit d).isDigit = true := by
  decide +revert

theorem digit_ne_plus (d : Fin 10) : digit d ≠ '+' := by
  decide +revert

theorem exists_digit {c : Char} (h : c.isDigit = true) : ∃ d, digit d = c := by
  simp only [Char.isDigit, ge_iff_le, Bool.and_eq_true, decide_eq_true_eq,
    UInt32.le_iff_toNat_le] at h
  have hzero : '0'.toNat = 48 := rfl
  have hlow : 48 ≤ c.toNat := h.1
  have hhigh : c.toNat ≤ 57 := h.2
  have hlt : c.toNat - 48 < 10 := by omega
  have hvalue : '0'.toNat + (c.toNat - 48) = c.toNat := by omega
  refine ⟨⟨c.toNat - 48, hlt⟩, ?_⟩
  rw [digit, hvalue, Char.ofNat_toNat]

theorem exists_digits {cs : List Char} (h : cs.all Char.isDigit = true) :
    ∃ digits : List (Fin 10), digits.map digit = cs := by
  have hdigits : cs ∈ Set.range (List.map digit) := by
    rw [Set.range_list_map]
    intro c hc
    exact exists_digit (List.all_eq_true.mp h c hc)
  exact hdigits

theorem digitsValue_append (cs : List Char) (c : Char) :
    digitsValue (cs ++ [c]) = 10 * digitsValue cs + (c.toNat - '0'.toNat) := by
  rw [digitsValue, List.foldl_append]
  rfl

/-- A row of digits, read from the left, has the value of its digits to the base ten. -/
theorem digitsValue_map_digit (digits : List (Fin 10)) :
    digitsValue (digits.map digit) = Nat.ofDigits 10 (digits.reverse.map Fin.val) := by
  induction digits using List.reverseRecOn with
  | nil => rfl
  | append_singleton digits d ih =>
    rw [List.map_append, List.map_singleton, digitsValue_append, ih, toNat_digit,
      List.reverse_append, List.reverse_singleton, List.singleton_append, List.map_cons,
      Nat.ofDigits_cons]
    omega

theorem dropPlus_eq_map_digit_iff {digits : List (Fin 10)} (hne : digits ≠ []) (cs : List Char) :
    dropPlus cs = digits.map digit ↔ cs = digits.map digit ∨ cs = '+' :: digits.map digit := by
  have hdigits : dropPlus (digits.map digit) = digits.map digit := by
    cases digits with
    | nil => exact absurd rfl hne
    | cons d digits =>
      unfold dropPlus
      split
      · next h => exact absurd (List.cons.inj h).1 (digit_ne_plus d)
      · rfl
  constructor
  · intro h
    unfold dropPlus at h
    split at h
    · exact .inr (h ▸ rfl)
    · exact .inl h
  · rintro (rfl | rfl)
    · exact hdigits
    · rfl

/-- The counts are the numbers of 64 bits that a numeral writes. -/
theorem count?_eq_some_iff {cs : List Char} {number : Nat} :
    count? cs = some number ↔ IsNumeral cs number ∧ number < 2 ^ 64 := by
  have hmax : ∀ value : Nat, value ≤ maxCount ↔ value < 2 ^ 64 := by
    intro value
    rw [maxCount, UInt64.size]
    omega
  unfold count?
  constructor
  · intro h
    obtain ⟨⟨hne, hall, hle⟩, hvalue⟩ := Option.ite_none_right_eq_some.mp h
    cases hvalue
    obtain ⟨digits, hdigits⟩ := exists_digits hall
    have hsome : digits ≠ [] := by
      rintro rfl
      exact hne hdigits.symm
    have hdrop := (dropPlus_eq_map_digit_iff hsome cs).mp hdigits.symm
    refine ⟨⟨digits, hsome, hdrop, ?_⟩, (hmax _).mp hle⟩
    rw [← digitsValue_map_digit, hdigits]
  · rintro ⟨⟨digits, hne, hcs, rfl⟩, hlt⟩
    have hdrop := (dropPlus_eq_map_digit_iff hne cs).mpr hcs
    have hall : (digits.map digit).all Char.isDigit = true := by
      rw [List.all_map]
      exact List.all_eq_true.mpr fun d _ => isDigit_digit d
    rw [← digitsValue_map_digit] at hlt ⊢
    apply Option.ite_none_right_eq_some.mpr
    rw [hdrop]
    exact ⟨⟨fun h => hne (List.map_eq_nil_iff.mp h), hall, (hmax _).mpr hlt⟩, rfl⟩

end Text
end FirmwareTests
