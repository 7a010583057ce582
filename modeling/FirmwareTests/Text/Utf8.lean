/-!
# Text and its bytes

A text is a list of characters, and its bytes are those of UTF-8. Positions in a
document count bytes. Bytes of unknown origin are read back in two ways: strictly,
which fails on anything that is no encoding of a text, and leniently, which puts
U+FFFD in place of each broken run. A broken run is a lead byte with as many of its
continuation bytes as are in order, or a single byte that begins nothing.
-/

namespace FirmwareTests
namespace Text

def byteLength (cs : List Char) : Nat :=
  cs.foldr (fun c n => c.utf8Size + n) 0

@[simp] theorem byteLength_nil : byteLength [] = 0 := rfl

@[simp] theorem byteLength_cons (c : Char) (cs : List Char) :
    byteLength (c :: cs) = c.utf8Size + byteLength cs := rfl

@[simp] theorem byteLength_append (cs ds : List Char) :
    byteLength (cs ++ ds) = byteLength cs + byteLength ds := by
  induction cs with
  | nil => simp
  | cons c cs ih => simp [ih, Nat.add_assoc]

def bytes (cs : List Char) : List UInt8 :=
  cs.flatMap String.utf8EncodeChar

@[simp] theorem bytes_nil : bytes [] = [] := rfl

@[simp] theorem bytes_append (cs ds : List Char) : bytes (cs ++ ds) = bytes cs ++ bytes ds := by
  simp [bytes]

theorem length_bytes (cs : List Char) : (bytes cs).length = byteLength cs := by
  induction cs with
  | nil => rfl
  | cons c cs ih => simp_all [bytes]

/-- Strict reading: the text that has exactly these bytes. -/
def ofBytes? (bs : List UInt8) : Option (List Char) :=
  (String.fromUTF8? bs.toByteArray).map String.toList

theorem ofBytes?_bytes (cs : List Char) : ofBytes? (bytes cs) = some cs := by
  have hvalid : (bytes cs).toByteArray.IsValidUTF8 := (String.ofList cs).isValidUTF8
  rw [ofBytes?, String.fromUTF8?, dif_pos hvalid]
  exact congrArg some String.toList_ofList

/-- What a broken run of bytes is shown as. -/
def replacement : Char := '\uFFFD'

/-- A range of byte values, both ends included. -/
structure ByteRange where
  low : UInt8
  high : UInt8

def ByteRange.contains (r : ByteRange) (b : UInt8) : Bool :=
  r.low ≤ b && b ≤ r.high

def continuationBytes : ByteRange := ⟨0x80, 0xBF⟩

/-- How a character of several bytes goes on after its lead byte: the payload of the
lead byte and the range of each further byte. The second byte has a narrower range
where a wider one would admit an overlong form, a surrogate or a value above U+10FFFF. -/
def afterLead (b : UInt8) : Option (Nat × List ByteRange) :=
  let tail := continuationBytes
  if b < 0xC2 then none
  else if b < 0xE0 then some (b.toNat - 0xC0, [tail])
  else if b = 0xE0 then some (0, [⟨0xA0, 0xBF⟩, tail])
  else if b = 0xED then some (0xD, [⟨0x80, 0x9F⟩, tail])
  else if b < 0xF0 then some (b.toNat - 0xE0, [tail, tail])
  else if b = 0xF0 then some (0, [⟨0x90, 0xBF⟩, tail, tail])
  else if b < 0xF4 then some (b.toNat - 0xF0, [tail, tail, tail])
  else if b = 0xF4 then some (4, [⟨0x80, 0x8F⟩, tail, tail])
  else none

/-- Reads the further bytes of a character. Gives its value, or nothing when a byte is
missing or out of range, and the bytes from there on. -/
def continueChar : Nat → List ByteRange → List UInt8 → Option Nat × List UInt8
  | value, [], bs => (some value, bs)
  | _, _ :: _, [] => (none, [])
  | value, r :: rs, b :: bs =>
    if r.contains b then continueChar (value * 64 + (b.toNat - 0x80)) rs bs else (none, b :: bs)

theorem length_continueChar_le (value : Nat) (rs : List ByteRange) (bs : List UInt8) :
    (continueChar value rs bs).2.length ≤ bs.length := by
  fun_induction continueChar value rs bs with
  | case1 => simp
  | case2 => simp
  | case3 value r rs b bs _ ih => simp only [List.length_cons]; omega
  | case4 => simp

/-- Lenient reading: every broken run becomes U+FFFD. -/
def ofBytesLenient : List UInt8 → List Char
  | [] => []
  | b :: bs =>
    if b < 0x80 then Char.ofNat b.toNat :: ofBytesLenient bs
    else
      match afterLead b with
      | none => replacement :: ofBytesLenient bs
      | some (value, ranges) =>
        have := length_continueChar_le value ranges bs
        let next := continueChar value ranges bs
        (next.1.map Char.ofNat).getD replacement :: ofBytesLenient next.2
termination_by bs => bs.length

end Text
end FirmwareTests
