import Mathlib.Data.String.Basic
import FirmwareTests.Text.Utf8

/-!
# The order of bytes

Texts are compared character by character. Comparing their UTF-8 bytes gives the same
order: of two characters the greater one has a greater byte at the first place where
their encodings differ, and no encoding is the beginning of another.
-/

namespace FirmwareTests
namespace Text

theorem ofNat_cons_lt_ofNat_cons {a b : Nat} (ha : a < 256) (hb : b < 256) (xs ys : List UInt8) :
    UInt8.ofNat a :: xs < UInt8.ofNat b :: ys ↔ a < b ∨ a = b ∧ xs < ys := by
  rw [List.cons_lt_cons_iff, UInt8.lt_iff_toNat_lt, ← UInt8.toNat_inj]
  simp [Nat.mod_eq_of_lt ha, Nat.mod_eq_of_lt hb]

theorem toNat_val_lt (c : Char) : c.val.toNat < 0x110000 := by
  rcases c.valid with h | h <;> omega

/-- The bytes of a character come before those of a greater one, whatever is behind them. -/
theorem utf8EncodeChar_append_lt {c d : Char} (h : c < d) (xs ys : List UInt8) :
    String.utf8EncodeChar c ++ xs < String.utf8EncodeChar d ++ ys := by
  have hlt : c.val.toNat < d.val.toNat := UInt32.lt_iff_toNat_lt.1 h
  have hmax := toNat_val_lt d
  simp only [String.utf8EncodeChar]
  generalize c.val.toNat = v at hlt
  generalize d.val.toNat = w at hlt hmax
  -- The first digit to the base 64 in which the two differ, if it is not the leading one.
  have hlast : v / 64 < w / 64 ∨ v / 64 = w / 64 ∧ v % 64 < w % 64 := by omega
  have hmiddle : v / 64 < w / 64 →
      v / 4096 < w / 4096 ∨ v / 4096 = w / 4096 ∧ v / 64 % 64 < w / 64 % 64 := by omega
  have hfirst : v / 4096 < w / 4096 →
      v / 262144 < w / 262144 ∨
        v / 262144 = w / 262144 ∧ v / 4096 % 64 < w / 4096 % 64 := by omega
  have hlead : v / 262144 % 8 = v / 262144 ∧ w / 262144 % 8 = w / 262144 := by omega
  split_ifs <;>
    simp (disch := omega) only [List.cons_append, List.nil_append,
      ofNat_cons_lt_ofNat_cons] <;>
    omega

theorem bytes_lt_bytes {cs ds : List Char} (h : cs < ds) : bytes cs < bytes ds := by
  induction h with
  | @nil d ds =>
    cases hbytes : bytes (d :: ds) with
    | nil =>
      have hpos := d.utf8Size_pos
      have hlength := length_bytes (d :: ds)
      rw [hbytes, byteLength_cons] at hlength
      simp at hlength
      omega
    | cons b bs => exact .nil
  | rel h => exact utf8EncodeChar_append_lt h _ _
  | @cons c cs ds _ ih => exact List.append_left_lt ih

theorem bytes_injective : Function.Injective bytes := by
  intro cs ds h
  rcases lt_trichotomy cs ds with hlt | rfl | hgt
  · exact absurd (h ▸ bytes_lt_bytes hlt) (List.lt_irrefl _)
  · rfl
  · exact absurd (h ▸ bytes_lt_bytes hgt) (List.lt_irrefl _)

theorem bytes_lt_bytes_iff {cs ds : List Char} : bytes cs < bytes ds ↔ cs < ds := by
  constructor
  · intro h
    rcases lt_trichotomy cs ds with hlt | rfl | hgt
    · exact hlt
    · exact absurd h (List.lt_irrefl _)
    · exact absurd (bytes_lt_bytes hgt) (List.lt_asymm h)
  · exact bytes_lt_bytes

end Text
end FirmwareTests
