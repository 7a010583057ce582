import Mathlib.Data.List.DropRight
import Mathlib.Data.List.TakeWhile
import FirmwareTests.Proofs.Text.ByteOrder
import FirmwareTests.Text.Segments

/-!
# Cutting the bytes of a text

The bytes of a text can be cut where a character of one byte stands, for no byte of a longer
character is the byte of such a character. A class of bytes that agrees with a class of
characters can be used in its place to take and to drop, from either end.
-/

namespace FirmwareTests
namespace Text

/-! ### Characters of one byte -/

def IsOctet (c : Char) : Prop :=
  c.utf8Size = 1

instance (c : Char) : Decidable (IsOctet c) :=
  inferInstanceAs (Decidable (_ = _))

theorem isOctet_iff {c : Char} : IsOctet c ↔ c.val.toNat ≤ 0x7F :=
  Char.utf8Size_eq_one_iff.trans UInt32.le_iff_toNat_le

theorem bytes_cons (c : Char) (cs : List Char) :
    bytes (c :: cs) = String.utf8EncodeChar c ++ bytes cs := rfl

theorem bytes_concat (cs : List Char) (c : Char) :
    bytes (cs ++ [c]) = bytes cs ++ String.utf8EncodeChar c := by
  simp [bytes]

theorem utf8EncodeChar_of_isOctet {c : Char} (h : IsOctet c) :
    String.utf8EncodeChar c = [c.toUInt8] :=
  String.utf8EncodeChar_eq_singleton h

theorem toUInt8_mem {c : Char} (h : IsOctet c) : c.toUInt8 ∈ String.utf8EncodeChar c := by
  rw [utf8EncodeChar_of_isOctet h]
  exact List.mem_singleton_self _

theorem bytes_cons_of_isOctet {c : Char} (h : IsOctet c) (cs : List Char) :
    bytes (c :: cs) = c.toUInt8 :: bytes cs := by
  rw [bytes_cons, utf8EncodeChar_of_isOctet h, List.singleton_append]

theorem utf8EncodeChar_ne_nil (c : Char) : String.utf8EncodeChar c ≠ [] := by
  rw [← List.length_pos_iff, String.length_utf8EncodeChar]
  exact c.utf8Size_pos

theorem length_le_byteLength (cs : List Char) : cs.length ≤ byteLength cs := by
  induction cs with
  | nil => simp
  | cons c cs ih =>
    have hpos := c.utf8Size_pos
    rw [List.length_cons, byteLength_cons]
    omega

@[simp] theorem bytes_eq_nil_iff {cs : List Char} : bytes cs = [] ↔ cs = [] := by
  cases cs with
  | nil => simp
  | cons c cs => simp [bytes_cons]

/-- Every byte of a longer character is beyond those of the characters of one byte. -/
theorem le_of_mem_utf8EncodeChar {c : Char} (h : ¬IsOctet c) {b : UInt8}
    (hb : b ∈ String.utf8EncodeChar c) : 0x80 ≤ b.toNat := by
  have hlong : ¬c.val.toNat ≤ 0x7F := fun hle => h (isOctet_iff.mpr hle)
  have hmarked : ∀ n, 0x80 ≤ n → n < 256 → 0x80 ≤ (UInt8.ofNat n).toNat := by
    intro n hlow hhigh
    rwa [UInt8.toNat_ofNat_of_lt' hhigh]
  simp only [String.utf8EncodeChar, if_neg hlong] at hb
  split_ifs at hb <;> simp only [List.mem_cons, List.not_mem_nil, or_false] at hb
  · rcases hb with rfl | rfl <;> exact hmarked _ (by omega) (by omega)
  · rcases hb with rfl | rfl | rfl <;> exact hmarked _ (by omega) (by omega)
  · rcases hb with rfl | rfl | rfl | rfl <;> exact hmarked _ (by omega) (by omega)

theorem toNat_toUInt8 {c : Char} (h : IsOctet c) : c.toUInt8.toNat = c.val.toNat := by
  have hle : c.val.toNat ≤ 0x7F := isOctet_iff.mp h
  have hmod : c.toUInt8.toNat = c.val.toNat % 256 := UInt32.toNat_toUInt8 c.val
  omega

theorem toUInt8_inj {c d : Char} (hc : IsOctet c) (hd : IsOctet d) :
    c.toUInt8 = d.toUInt8 ↔ c = d := by
  constructor
  · intro heq
    rw [← UInt8.toNat_inj, toNat_toUInt8 hc, toNat_toUInt8 hd] at heq
    exact Char.ext (UInt32.toNat_inj.mp heq)
  · rintro rfl
    rfl

theorem eq_toUInt8_iff {c d : Char} (hc : IsOctet c) {b : UInt8}
    (hb : b ∈ String.utf8EncodeChar d) : b = c.toUInt8 ↔ d = c := by
  by_cases hd : IsOctet d
  · rw [utf8EncodeChar_of_isOctet hd, List.mem_singleton] at hb
    subst hb
    exact toUInt8_inj hd hc
  · have hle := le_of_mem_utf8EncodeChar hd hb
    have hmax := isOctet_iff.mp hc
    rw [← toNat_toUInt8 hc] at hmax
    constructor
    · rintro rfl
      omega
    · rintro rfl
      exact absurd hc hd

/-! ### Classes of bytes and of characters -/

/-- A class of bytes has each byte of a character just when the class of characters has the
character. -/
def Agree (p : UInt8 → Bool) (q : Char → Bool) : Prop :=
  ∀ c, ∀ b ∈ String.utf8EncodeChar c, p b = q c

theorem agree_beq {c : Char} (hc : IsOctet c) : Agree (· == c.toUInt8) (· == c) := by
  intro d b hb
  rw [Bool.eq_iff_iff, beq_iff_eq, beq_iff_eq]
  exact eq_toUInt8_iff hc hb

theorem agree_bne {c : Char} (hc : IsOctet c) : Agree (· != c.toUInt8) (· != c) := by
  intro d b hb
  exact congrArg not (agree_beq hc d b hb)

theorem exists_utf8EncodeChar_eq_cons (c : Char) :
    ∃ b bs, String.utf8EncodeChar c = b :: bs ∧ b ∈ String.utf8EncodeChar c := by
  obtain ⟨b, bs, heq⟩ := List.exists_cons_of_ne_nil (utf8EncodeChar_ne_nil c)
  exact ⟨b, bs, heq, heq ▸ List.mem_cons_self⟩

namespace Agree

variable {p p' : UInt8 → Bool} {q q' : Char → Bool}

protected theorem not (h : Agree p q) : Agree (fun b => !p b) (fun c => !q c) := by
  intro c b hb
  exact congrArg not (h c b hb)

protected theorem or (h : Agree p q) (h' : Agree p' q') :
    Agree (fun b => p b || p' b) (fun c => q c || q' c) := by
  intro c b hb
  exact congrArg₂ or (h c b hb) (h' c b hb)

/-- The bytes of a character, the first of which is in the class just when the character is. -/
theorem exists_cons (h : Agree p q) (c : Char) :
    ∃ b bs, String.utf8EncodeChar c = b :: bs ∧ p b = q c := by
  obtain ⟨b, bs, heq, hb⟩ := exists_utf8EncodeChar_eq_cons c
  exact ⟨b, bs, heq, h c b hb⟩

theorem takeWhile_bytes (h : Agree p q) (cs : List Char) :
    (bytes cs).takeWhile p = bytes (cs.takeWhile q) := by
  induction cs with
  | nil => rfl
  | cons c cs ih =>
    by_cases hc : q c = true
    · have hall : ∀ b ∈ String.utf8EncodeChar c, p b = true := fun b hb => (h c b hb).trans hc
      rw [bytes_cons, List.takeWhile_append_of_pos hall, ih, List.takeWhile_cons_of_pos hc,
        bytes_cons]
    · obtain ⟨b, bs, heq, hb⟩ := h.exists_cons c
      rw [bytes_cons, heq, List.cons_append, List.takeWhile_cons_of_neg (hb ▸ hc),
        List.takeWhile_cons_of_neg hc, bytes_nil]

theorem dropWhile_bytes (h : Agree p q) (cs : List Char) :
    (bytes cs).dropWhile p = bytes (cs.dropWhile q) := by
  induction cs with
  | nil => rfl
  | cons c cs ih =>
    by_cases hc : q c = true
    · have hall : ∀ b ∈ String.utf8EncodeChar c, p b = true := fun b hb => (h c b hb).trans hc
      rw [bytes_cons, List.dropWhile_append_of_pos hall, ih, List.dropWhile_cons_of_pos hc]
    · obtain ⟨b, bs, heq, hb⟩ := h.exists_cons c
      rw [bytes_cons, heq, List.cons_append, List.dropWhile_cons_of_neg (hb ▸ hc),
        List.dropWhile_cons_of_neg hc, bytes_cons, heq, List.cons_append]

theorem all_bytes (h : Agree p q) (cs : List Char) : (bytes cs).all p = cs.all q := by
  rw [Bool.eq_iff_iff, List.all_eq_true, List.all_eq_true, ← List.dropWhile_eq_nil_iff,
    ← List.dropWhile_eq_nil_iff, h.dropWhile_bytes, bytes_eq_nil_iff]

theorem rdropWhile_bytes (h : Agree p q) (cs : List Char) :
    (bytes cs).rdropWhile p = bytes (dropEndWhile q cs) := by
  induction cs using List.reverseRecOn with
  | nil => rfl
  | append_singleton cs c ih =>
    rw [List.rdropWhile, bytes_concat, List.reverse_append, dropEndWhile, List.reverse_concat]
    by_cases hc : q c = true
    · have hall : ∀ b ∈ (String.utf8EncodeChar c).reverse, p b = true :=
        fun b hb => (h c b (List.mem_reverse.mp hb)).trans hc
      rw [List.dropWhile_append_of_pos hall, List.dropWhile_cons_of_pos hc]
      exact ih
    · have hne : (String.utf8EncodeChar c).reverse ≠ [] :=
        List.reverse_ne_nil_iff.mpr (utf8EncodeChar_ne_nil c)
      obtain ⟨b, bs, heq⟩ := List.exists_cons_of_ne_nil hne
      have hb : p b = q c := h c b (List.mem_reverse.mp (heq ▸ List.mem_cons_self))
      rw [heq, List.cons_append, List.dropWhile_cons_of_neg (hb ▸ hc),
        List.dropWhile_cons_of_neg hc, ← List.cons_append, ← heq, ← List.reverse_append,
        List.reverse_reverse, ← List.reverse_concat, List.reverse_reverse, bytes_concat]

end Agree

/-! ### The first and the last byte -/

section

variable {c : Char} {cs : List Char}

theorem head?_bytes (hc : IsOctet c) (cs : List Char) :
    (bytes cs).head? = some c.toUInt8 ↔ cs.head? = some c := by
  cases cs with
  | nil => simp
  | cons d cs =>
    obtain ⟨b, bs, heq, hb⟩ := exists_utf8EncodeChar_eq_cons d
    rw [bytes_cons, heq, List.cons_append, List.head?_cons, List.head?_cons, Option.some_inj,
      Option.some_inj, eq_toUInt8_iff hc hb]

theorem getLast?_bytes (hc : IsOctet c) :
    (bytes cs).getLast? = some c.toUInt8 ↔ cs.getLast? = some c := by
  induction cs using List.reverseRecOn with
  | nil => simp
  | append_singleton cs d _ =>
    have hne := utf8EncodeChar_ne_nil d
    rw [bytes_concat, List.getLast?_append, List.getLast?_eq_some_getLast hne, Option.some_or,
      List.getLast?_concat, Option.some_inj, Option.some_inj,
      eq_toUInt8_iff hc (List.getLast_mem hne)]

theorem dropLast_bytes (hc : IsOctet c) (h : cs.getLast? = some c) :
    (bytes cs).dropLast = bytes cs.dropLast := by
  obtain ⟨front, rfl⟩ := List.getLast?_eq_some_iff.mp h
  rw [bytes_concat, utf8EncodeChar_of_isOctet hc, List.dropLast_concat, List.dropLast_concat]

theorem count_bytes (hc : IsOctet c) (cs : List Char) :
    (bytes cs).count c.toUInt8 = cs.count c := by
  induction cs with
  | nil => rfl
  | cons d cs ih =>
    rw [bytes_cons, List.count_append, ih, List.count_cons, Nat.add_comm]
    congr 1
    by_cases hd : d = c
    · subst hd
      rw [utf8EncodeChar_of_isOctet hc, List.count_singleton_self, if_pos (beq_self_eq_true d)]
    · have hnot : c.toUInt8 ∉ String.utf8EncodeChar d :=
        fun hb => hd ((eq_toUInt8_iff hc hb).mp rfl)
      rw [List.count_eq_zero.mpr hnot, if_neg (by simpa using hd)]

end

theorem eq_of_utf8EncodeChar_append {c d : Char} {xs ys : List UInt8}
    (h : String.utf8EncodeChar c ++ xs = String.utf8EncodeChar d ++ ys) : c = d := by
  rcases lt_trichotomy c d with hlt | heq | hgt
  · exact absurd (h ▸ utf8EncodeChar_append_lt hlt xs ys) (List.lt_irrefl _)
  · exact heq
  · exact absurd (h ▸ utf8EncodeChar_append_lt hgt ys xs) (List.lt_irrefl _)

end Text
end FirmwareTests
