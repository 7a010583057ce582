import FirmwareTests.Proofs.Text.ByteOrder

/-!
# Reading the bytes of a text

Lenient reading gives a text back from its bytes: the lead byte of a character announces its
further bytes, each of which lies in its range. So nothing in the bytes of a text is replaced.
-/

namespace FirmwareTests
namespace Text

section

variable {n value : Nat} {r : ByteRange} {rs : List ByteRange}

theorem ofNat_lt_iff (h : n < 256) (b : UInt8) : UInt8.ofNat n < b ↔ n < b.toNat := by
  rw [UInt8.lt_iff_toNat_lt, UInt8.toNat_ofNat_of_lt' h]

theorem ofNat_eq_iff (h : n < 256) (b : UInt8) : UInt8.ofNat n = b ↔ n = b.toNat := by
  rw [← UInt8.toNat_inj, UInt8.toNat_ofNat_of_lt' h]

theorem afterLead_ofNat (h : n < 256) : afterLead (UInt8.ofNat n) =
    if n < 0xC2 then none
    else if n < 0xE0 then some (n - 0xC0, [continuationBytes])
    else if n = 0xE0 then some (0, [⟨0xA0, 0xBF⟩, continuationBytes])
    else if n = 0xED then some (0xD, [⟨0x80, 0x9F⟩, continuationBytes])
    else if n < 0xF0 then some (n - 0xE0, [continuationBytes, continuationBytes])
    else if n = 0xF0 then some (0, [⟨0x90, 0xBF⟩, continuationBytes, continuationBytes])
    else if n < 0xF4 then
      some (n - 0xF0, [continuationBytes, continuationBytes, continuationBytes])
    else if n = 0xF4 then some (4, [⟨0x80, 0x8F⟩, continuationBytes, continuationBytes])
    else none := by
  simp only [afterLead, ofNat_lt_iff h, ofNat_eq_iff h, UInt8.toNat_ofNat_of_lt' h]
  rfl

theorem continueChar_ofNat (hlow : r.low.toNat ≤ n) (hhigh : n ≤ r.high.toNat)
    (bs : List UInt8) : continueChar value (r :: rs) (UInt8.ofNat n :: bs) =
      continueChar (value * 64 + (n - 0x80)) rs bs := by
  have hlt : n < 256 := Nat.lt_of_le_of_lt hhigh r.high.toNat_lt
  have hcontains : r.contains (UInt8.ofNat n) = true := by
    rw [ByteRange.contains, Bool.and_eq_true, decide_eq_true_eq, decide_eq_true_eq,
      UInt8.le_iff_toNat_le, UInt8.le_iff_toNat_le, UInt8.toNat_ofNat_of_lt' hlt]
    exact ⟨hlow, hhigh⟩
  rw [continueChar, if_pos hcontains, UInt8.toNat_ofNat_of_lt' hlt]

/-- A lead byte and the bytes that it announces are read as a character. -/
theorem ofBytesLenient_lead {v : Nat} {bs rest : List UInt8} (hn : n < 256)
    (hlead : afterLead (UInt8.ofNat n) = some (value, rs))
    (hbytes : continueChar value rs bs = (some v, rest)) :
    ofBytesLenient (UInt8.ofNat n :: bs) = Char.ofNat v :: ofBytesLenient rest := by
  have hle : ¬UInt8.ofNat n < 0x80 := by
    rw [ofNat_lt_iff hn]
    intro hlt
    rw [afterLead_ofNat hn, if_pos (Nat.lt_trans hlt (by decide))] at hlead
    cases hlead
  rw [ofBytesLenient, if_neg hle]
  simp only [hlead, hbytes, Option.map_some, Option.getD_some]

theorem ofBytesLenient_ascii (hn : n < 0x80) (bs : List UInt8) :
    ofBytesLenient (UInt8.ofNat n :: bs) = Char.ofNat n :: ofBytesLenient bs := by
  have hlt : n < 256 := Nat.lt_trans hn (by decide)
  have hbyte : UInt8.ofNat n < 0x80 := (ofNat_lt_iff hlt 0x80).mpr hn
  rw [ofBytesLenient, if_pos hbyte, UInt8.toNat_ofNat_of_lt' hlt]

theorem continueChar_continuation (n value : Nat) (rs : List ByteRange) (bs : List UInt8) :
    continueChar value (continuationBytes :: rs) (UInt8.ofNat (n % 64 + 0x80) :: bs) =
      continueChar (value * 64 + n % 64) rs bs := by
  have hlow : continuationBytes.low.toNat = 0x80 := rfl
  have hhigh : continuationBytes.high.toNat = 0xBF := rfl
  rw [continueChar_ofNat (by omega) (by omega), Nat.add_sub_cancel]

end

/-! ### Characters of two, three and four bytes -/

section

variable {v : Nat} (bs : List UInt8)

theorem ofBytesLenient_two (hlow : 0x7F < v) (hhigh : v ≤ 0x7FF) :
    ofBytesLenient (UInt8.ofNat (v / 64 % 32 + 0xC0) :: UInt8.ofNat (v % 64 + 0x80) :: bs) =
      Char.ofNat v :: ofBytesLenient bs := by
  have hdigit : v / 64 % 32 = v / 64 := by omega
  have hlead : afterLead (UInt8.ofNat (v / 64 % 32 + 0xC0)) =
      some (v / 64, [continuationBytes]) := by
    rw [afterLead_ofNat (by omega), if_neg (by omega), if_pos (by omega), hdigit,
      Nat.add_sub_cancel]
  apply ofBytesLenient_lead (by omega) hlead
  rw [continueChar_continuation, continueChar, Nat.div_add_mod']

/-- The lead byte of a character of three bytes, and the range of its second byte, which is
narrower below the first such character and around the surrogates. -/
theorem afterLead_three (hlow : 0x7FF < v) (hhigh : v ≤ 0xFFFF)
    (hvalid : v < 0xD800 ∨ 0xDFFF < v) :
    ∃ second : ByteRange,
      afterLead (UInt8.ofNat (v / 4096 % 16 + 0xE0)) =
        some (v / 4096, [second, continuationBytes]) ∧
      second.low.toNat ≤ v / 64 % 64 + 0x80 ∧ v / 64 % 64 + 0x80 ≤ second.high.toNat := by
  have hdigit : v / 4096 % 16 = v / 4096 := by omega
  rw [afterLead_ofNat (by omega), if_neg (by omega), if_neg (by omega), hdigit,
    Nat.add_sub_cancel]
  by_cases hfirst : v / 4096 = 0
  · have hA0 : (0xA0 : UInt8).toNat = 0xA0 := rfl
    have hBF : (0xBF : UInt8).toNat = 0xBF := rfl
    exact ⟨⟨0xA0, 0xBF⟩, by rw [if_pos (by omega), hfirst], by dsimp only; omega,
      by dsimp only; omega⟩
  by_cases hsurrogates : v / 4096 = 0xD
  · have h80 : (0x80 : UInt8).toNat = 0x80 := rfl
    have h9F : (0x9F : UInt8).toNat = 0x9F := rfl
    exact ⟨⟨0x80, 0x9F⟩, by rw [if_neg (by omega), if_pos (by omega), hsurrogates],
      by dsimp only; omega, by dsimp only; omega⟩
  · have hlow : continuationBytes.low.toNat = 0x80 := rfl
    have hhigh : continuationBytes.high.toNat = 0xBF := rfl
    exact ⟨continuationBytes, by rw [if_neg (by omega), if_neg (by omega), if_pos (by omega)],
      by omega, by omega⟩

theorem ofBytesLenient_three (hlow : 0x7FF < v) (hhigh : v ≤ 0xFFFF)
    (hvalid : v < 0xD800 ∨ 0xDFFF < v) :
    ofBytesLenient (UInt8.ofNat (v / 4096 % 16 + 0xE0) ::
      UInt8.ofNat (v / 64 % 64 + 0x80) :: UInt8.ofNat (v % 64 + 0x80) :: bs) =
      Char.ofNat v :: ofBytesLenient bs := by
  obtain ⟨second, hlead, hmin, hmax⟩ := afterLead_three hlow hhigh hvalid
  have hdigits : (v / 4096 * 64 + v / 64 % 64) * 64 + v % 64 = v := by omega
  apply ofBytesLenient_lead (by omega) hlead
  rw [continueChar_ofNat hmin hmax, Nat.add_sub_cancel, continueChar_continuation, continueChar,
    hdigits]

/-- The lead byte of a character of four bytes, and the range of its second byte, which is
narrower below the first such character and at the last one. -/
theorem afterLead_four (hlow : 0xFFFF < v) (hhigh : v < 0x110000) :
    ∃ second : ByteRange,
      afterLead (UInt8.ofNat (v / 262144 % 8 + 0xF0)) =
        some (v / 262144, [second, continuationBytes, continuationBytes]) ∧
      second.low.toNat ≤ v / 4096 % 64 + 0x80 ∧ v / 4096 % 64 + 0x80 ≤ second.high.toNat := by
  have hdigit : v / 262144 % 8 = v / 262144 := by omega
  rw [afterLead_ofNat (by omega), if_neg (by omega), if_neg (by omega), if_neg (by omega),
    if_neg (by omega), if_neg (by omega), hdigit, Nat.add_sub_cancel]
  by_cases hfirst : v / 262144 = 0
  · have h90 : (0x90 : UInt8).toNat = 0x90 := rfl
    have hBF : (0xBF : UInt8).toNat = 0xBF := rfl
    exact ⟨⟨0x90, 0xBF⟩, by rw [if_pos (by omega), hfirst], by dsimp only; omega,
      by dsimp only; omega⟩
  by_cases hlast : v / 262144 = 4
  · have h80 : (0x80 : UInt8).toNat = 0x80 := rfl
    have h8F : (0x8F : UInt8).toNat = 0x8F := rfl
    exact ⟨⟨0x80, 0x8F⟩,
      by rw [if_neg (by omega), if_neg (by omega), if_pos (by omega), hlast],
      by dsimp only; omega, by dsimp only; omega⟩
  · have hmin : continuationBytes.low.toNat = 0x80 := rfl
    have hmax : continuationBytes.high.toNat = 0xBF := rfl
    exact ⟨continuationBytes, by rw [if_neg (by omega), if_pos (by omega)], by omega, by omega⟩

theorem ofBytesLenient_four (hlow : 0xFFFF < v) (hhigh : v < 0x110000) :
    ofBytesLenient (UInt8.ofNat (v / 262144 % 8 + 0xF0) ::
      UInt8.ofNat (v / 4096 % 64 + 0x80) :: UInt8.ofNat (v / 64 % 64 + 0x80) ::
        UInt8.ofNat (v % 64 + 0x80) :: bs) = Char.ofNat v :: ofBytesLenient bs := by
  obtain ⟨second, hlead, hmin, hmax⟩ := afterLead_four hlow hhigh
  have hdigits : ((v / 262144 * 64 + v / 4096 % 64) * 64 + v / 64 % 64) * 64 + v % 64 = v := by
    omega
  apply ofBytesLenient_lead (by omega) hlead
  rw [continueChar_ofNat hmin hmax, Nat.add_sub_cancel, continueChar_continuation,
    continueChar_continuation, continueChar, hdigits]

end

/-- The bytes of a character are read as the character, whatever is behind them. -/
theorem ofBytesLenient_utf8EncodeChar_append (c : Char) (bs : List UInt8) :
    ofBytesLenient (String.utf8EncodeChar c ++ bs) = c :: ofBytesLenient bs := by
  have hc : Char.ofNat c.val.toNat = c := Char.ofNat_toNat c
  have hvalid : c.val.toNat < 0xD800 ∨ 0xDFFF < c.val.toNat ∧ c.val.toNat < 0x110000 := c.valid
  simp only [String.utf8EncodeChar]
  generalize c.val.toNat = v at hc hvalid
  subst hc
  split_ifs with hone htwo hthree
  · exact ofBytesLenient_ascii (by omega) bs
  · exact ofBytesLenient_two bs (by omega) htwo
  · exact ofBytesLenient_three bs (by omega) hthree (by omega)
  · exact ofBytesLenient_four bs (by omega) (by omega)

/-- A text is read back from its bytes, and nothing in it is replaced. -/
theorem ofBytesLenient_bytes (cs : List Char) : ofBytesLenient (bytes cs) = cs := by
  induction cs with
  | nil =>
    rw [bytes_nil, ofBytesLenient]
  | cons c cs ih =>
    have hbytes : bytes (c :: cs) = String.utf8EncodeChar c ++ bytes cs := rfl
    rw [hbytes, ofBytesLenient_utf8EncodeChar_append, ih]

/-- Bytes that no character is cut out of: they are those of a text, and reading them leniently
gives that text. -/
structure Whole (bs : List UInt8) : Prop where
  ofBytes? : ofBytes? bs = some (ofBytesLenient bs)
  bytes : bytes (ofBytesLenient bs) = bs

theorem whole_bytes (cs : List Char) : Whole (bytes cs) where
  ofBytes? := by rw [ofBytes?_bytes, ofBytesLenient_bytes]
  bytes := by rw [ofBytesLenient_bytes]

end Text
end FirmwareTests
