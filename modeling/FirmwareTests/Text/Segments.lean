/-!
# Parts of texts

A text is cut at a separator into segments: one more than there are separators, so an
empty text has one segment, the empty one. Blank characters, which have the Unicode
property White_Space, are trimmed; the class is wider than the white space that
separates the parts of a tag. A count is written as an optional plus sign and one or
more decimal digits, of any number and with any leading zeros, and fits a word of 64
bits.
-/

namespace FirmwareTests
namespace Text

/-! ### Segments -/

def segments (separator : Char) : List Char → List (List Char)
  | [] => [[]]
  | c :: cs =>
    if c = separator then [] :: segments separator cs
    else
      match segments separator cs with
      | [] => [[c]]
      | s :: ss => (c :: s) :: ss

@[simp] theorem segments_nil (separator : Char) : segments separator [] = [[]] := rfl

theorem segments_ne_nil (separator : Char) (cs : List Char) : segments separator cs ≠ [] := by
  cases cs with
  | nil => simp
  | cons c cs =>
    simp only [segments]
    split
    · simp
    · split <;> simp

theorem length_segments (separator : Char) (cs : List Char) :
    (segments separator cs).length = cs.count separator + 1 := by
  induction cs with
  | nil => rfl
  | cons c cs ih =>
    simp only [segments]
    split
    · next h => simp [h, ih]
    · next h =>
      split
      · next hnil => exact absurd hnil (segments_ne_nil separator cs)
      · next hcons =>
        rw [hcons] at ih
        simpa [List.count_cons, h] using ih

theorem segments_append (separator : Char) (cs ds : List Char) :
    segments separator (cs ++ separator :: ds) =
      segments separator cs ++ segments separator ds := by
  induction cs with
  | nil => simp [segments]
  | cons c cs ih =>
    rw [List.cons_append, segments, segments]
    by_cases hc : c = separator
    · rw [if_pos hc, if_pos hc, ih, List.cons_append]
    · rw [if_neg hc, if_neg hc, ih]
      cases hcs : segments separator cs with
      | nil => exact absurd hcs (segments_ne_nil separator cs)
      | cons s ss => rfl

theorem segments_of_notMem {separator : Char} {cs : List Char} (h : separator ∉ cs) :
    segments separator cs = [cs] := by
  induction cs with
  | nil => rfl
  | cons c cs ih =>
    obtain ⟨hc, hcs⟩ := List.ne_and_not_mem_of_not_mem_cons h
    rw [segments, if_neg (Ne.symm hc), ih hcs]

theorem notMem_of_mem_segments {separator : Char} {cs s : List Char}
    (h : s ∈ segments separator cs) : separator ∉ s := by
  induction cs generalizing s with
  | nil =>
    rw [segments, List.mem_singleton] at h
    rw [h]
    exact List.not_mem_nil
  | cons c cs ih =>
    rw [segments] at h
    split at h
    · rcases List.mem_cons.1 h with rfl | h
      · exact List.not_mem_nil
      · exact ih h
    · next hc =>
      split at h
      · next hnil => exact absurd hnil (segments_ne_nil separator cs)
      · next first rest hsegments =>
        rw [hsegments] at ih
        rcases List.mem_cons.1 h with rfl | h
        · exact List.not_mem_cons_of_ne_of_not_mem (Ne.symm hc) (ih List.mem_cons_self)
        · exact ih (List.mem_cons_of_mem first h)

/-! ### Blank characters -/

/-- The characters with the property White_Space. -/
def isBlank (c : Char) : Bool :=
  let n := c.toNat
  (0x09 ≤ n && n ≤ 0x0D) || n == 0x20 || n == 0x85 || n == 0xA0 || n == 0x1680 ||
    (0x2000 ≤ n && n ≤ 0x200A) || n == 0x2028 || n == 0x2029 || n == 0x202F ||
    n == 0x205F || n == 0x3000

def dropEndWhile (p : Char → Bool) (cs : List Char) : List Char :=
  (cs.reverse.dropWhile p).reverse

def trim (cs : List Char) : List Char :=
  dropEndWhile isBlank (cs.dropWhile isBlank)

/-! ### Unsigned numerals -/

def maxCount : Nat := UInt64.size - 1

/-- The value of a row of decimal digits, read from the left. -/
def digitsValue (digits : List Char) : Nat :=
  digits.foldl (fun value c => 10 * value + (c.toNat - '0'.toNat)) 0

def dropPlus : List Char → List Char
  | '+' :: digits => digits
  | digits => digits

/-- Reads a count. There is none when the text is no numeral or its value is too large. -/
def count? (cs : List Char) : Option Nat :=
  let digits := dropPlus cs
  if digits ≠ [] ∧ digits.all Char.isDigit ∧ digitsValue digits ≤ maxCount then
    some (digitsValue digits)
  else none

end Text
end FirmwareTests
