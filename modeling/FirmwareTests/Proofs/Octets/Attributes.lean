import FirmwareTests.Proofs.Markup.AttributeRow
import FirmwareTests.Proofs.Octets.Tags

/-!
# Attributes as bytes

The attributes of a tag are found in its bytes as its tokens are in a document: keys and values
are cut where an equals sign, a quote or white space stands. They are the bytes of the
attributes that are found in its characters, and so is every fault.
-/

namespace FirmwareTests
namespace Octets

open Markup (AttributeFault)
open Text

/-! ### Reading attributes -/

/-- An attribute: its key, and its value as it stands between its quotes. -/
structure Attribute where
  key : List UInt8
  value : List UInt8
  deriving DecidableEq, Repr

/-- A part of some bytes, and how many of them have been read with it. -/
structure Part where
  content : List UInt8
  size : Nat
  deriving DecidableEq, Repr

def endsKey (b : UInt8) : Bool :=
  b == '='.toUInt8 || isSpace b

/-- Reads a key and its equals sign, given the position of its first byte, that byte and the
bytes after it. The first byte is no part of the size. -/
def readKey (position : Nat) (first : UInt8) (bs : List UInt8) : Except AttributeFault Part :=
  let more := bs.takeWhile fun b => !endsKey b
  let after := bs.dropWhile fun b => !endsKey b
  let size := more.length + (after.takeWhile isSpace).length
  if (after.dropWhile isSpace).head? = some '='.toUInt8 then .ok ⟨first :: more, size + 1⟩
  else .error (.expectedEquals (position + 1 + size))

def isQuote (b : UInt8) : Bool :=
  b == '"'.toUInt8 || b == '\''.toUInt8

def readValue (position : Nat) (bs : List UInt8) : Except AttributeFault Part :=
  let before := (bs.takeWhile isSpace).length
  match bs.dropWhile isSpace with
  | [] => .error (.expectedValue (position + before))
  | quote :: body =>
    if isQuote quote then
      let value := body.takeWhile fun b => b != quote
      match body.dropWhile fun b => b != quote with
      | [] =>
        .error (.missingQuote (position + before + 1 + value.length) (Char.ofNat quote.toNat))
      | _ :: _ => .ok ⟨value, before + 1 + value.length + 1⟩
    else .error (.unquotedValue (position + before))

/-- The attributes read from a tag, and the fault that ended the reading, if one did. -/
structure AttributeList where
  attributes : List Attribute
  fault : Option AttributeFault
  deriving DecidableEq, Repr

/-- Reads one attribute that begins with the given byte, which is no part of the size. -/
def readAttribute (seen : List (List UInt8 × Nat)) (start : Nat) (first : UInt8)
    (bs : List UInt8) : Except AttributeFault (Attribute × Nat) :=
  match readKey start first bs with
  | .error fault => .error fault
  | .ok key =>
    match seen.find? fun k => k.1 == key.content with
    | some previous => .error (.duplicated start previous.2)
    | none =>
      match readValue (start + 1 + key.size) (bs.drop key.size) with
      | .error fault => .error fault
      | .ok value => .ok (⟨key.content, value.content⟩, key.size + value.size)

def readAttributes (seen : List (List UInt8 × Nat)) (position : Nat) (bs : List UInt8) :
    AttributeList :=
  match h : bs.dropWhile isSpace with
  | [] => ⟨[], none⟩
  | first :: more =>
    let start := position + (bs.takeWhile isSpace).length
    match readAttribute seen start first more with
    | .error fault => ⟨[], some fault⟩
    | .ok (a, size) =>
      have : more.length < bs.length := by
        have hlength := (List.dropWhile_suffix (l := bs) isSpace).length_le
        rwa [h] at hlength
      let rest := readAttributes (seen ++ [(a.key, start)]) (start + 1 + size) (more.drop size)
      { rest with attributes := a :: rest.attributes }
termination_by bs.length

/-- The attributes of a tag, with positions counted from its first byte. -/
def attributes (text : List UInt8) : AttributeList :=
  readAttributes [] (tagName text).length (text.dropWhile fun b => !isSpace b)

/-! ### Agreement -/

def Attribute.of (a : Markup.Attribute) : Attribute :=
  ⟨bytes a.key, bytes a.value⟩

def AttributeList.of (list : Markup.AttributeList) : AttributeList :=
  ⟨list.attributes.map Attribute.of, list.fault⟩

/-- What is read from a position on, as a part of the bytes. -/
def Part.of (position : Nat) (part : Markup.Part) : Part :=
  ⟨bytes part.content, part.position - position⟩

theorem agree_endsKey : Agree endsKey Markup.endsKey :=
  (agree_beq (by decide)).or agree_isSpace

theorem agree_isQuote : Agree isQuote Markup.isQuote :=
  (agree_beq (by decide)).or (agree_beq (by decide))

/-- No byte but the first one of a character ends a key. -/
theorem endsKey_of_mem_tail {c : Char} {b : UInt8} {bs : List UInt8}
    (h : String.utf8EncodeChar c = b :: bs) : ∀ d ∈ bs, (!endsKey d) = true := by
  intro d hd
  by_cases hc : IsOctet c
  · rw [utf8EncodeChar_of_isOctet hc] at h
    obtain ⟨-, rfl⟩ := List.cons.inj h
    cases hd
  · have hends : Markup.endsKey c = false := by
      rw [← Bool.not_eq_true]
      intro hends
      simp only [Markup.endsKey, Markup.isSpace, Bool.or_eq_true, beq_iff_eq] at hends
      rcases hends with rfl | ((rfl | rfl) | rfl) | rfl <;> exact hc (by decide)
    have hmem : d ∈ String.utf8EncodeChar c := h ▸ List.mem_cons_of_mem b hd
    rw [agree_endsKey c d hmem, hends]
    rfl

theorem readKey_bytes (position : Nat) {first : Char} {cs : List Char} {b : UInt8}
    {bs : List UInt8} (h : bytes (first :: cs) = b :: bs) :
    readKey position b bs =
      (Markup.readKey position first cs).map (Part.of (position + 1)) := by
  obtain ⟨b', tail, heq, -⟩ := exists_utf8EncodeChar_eq_cons first
  rw [bytes_cons, heq, List.cons_append] at h
  obtain ⟨rfl, rfl⟩ := List.cons.inj h
  have htail := endsKey_of_mem_tail heq
  have hkey : bytes (first :: cs.takeWhile fun c => !Markup.endsKey c) =
      b' :: (tail ++ bytes (cs.takeWhile fun c => !Markup.endsKey c)) := by
    rw [bytes_cons, heq, List.cons_append]
  have hsize := congrArg List.length hkey
  rw [length_bytes, List.length_cons] at hsize
  rw [readKey, List.takeWhile_append_of_pos htail, List.dropWhile_append_of_pos htail,
    agree_endsKey.not.takeWhile_bytes, agree_endsKey.not.dropWhile_bytes,
    agree_isSpace.takeWhile_bytes, agree_isSpace.dropWhile_bytes, ← hkey]
  simp only [head?_bytes (c := '=') (by decide), Markup.readKey, Markup.skipSpace]
  generalize (cs.dropWhile fun c => !Markup.endsKey c) = after
  by_cases hequals : (after.dropWhile Markup.isSpace).head? = some '='
  · rw [if_pos hequals]
    obtain ⟨rest, hrest⟩ := List.head?_eq_some_iff.mp hequals
    simp only [hrest, Except.map, Part.of, length_bytes, Except.ok.injEq, Part.mk.injEq,
      true_and]
    omega
  · rw [if_neg hequals]
    split
    · next rest hrest =>
      rw [hrest] at hequals
      exact absurd rfl hequals
    · simp only [Except.map, length_bytes, Except.error.injEq, AttributeFault.expectedEquals.injEq]
      omega

theorem readValue_bytes (position : Nat) (cs : List Char) :
    readValue position (bytes cs) =
      (Markup.readValue position cs).map (Part.of position) := by
  rw [readValue, agree_isSpace.takeWhile_bytes, agree_isSpace.dropWhile_bytes]
  simp only [Markup.readValue, Markup.skipSpace]
  cases cs.dropWhile Markup.isSpace with
  | nil =>
    rw [bytes_nil, length_bytes]
    rfl
  | cons quote body =>
    by_cases hquote : Markup.isQuote quote = true
    · have hoctet : IsOctet quote := by
        simp only [Markup.isQuote, Bool.or_eq_true, beq_iff_eq] at hquote
        rcases hquote with rfl | rfl <;> decide
      have hbyte : isQuote quote.toUInt8 = true := by
        rw [agree_isQuote quote _ (toUInt8_mem hoctet)]
        exact hquote
      have hchar : Char.ofNat quote.toUInt8.toNat = quote := by
        rw [toNat_toUInt8 hoctet]
        exact Char.ofNat_toNat quote
      rw [bytes_cons_of_isOctet hoctet]
      simp only [if_pos hquote, if_pos hbyte, (agree_bne hoctet).takeWhile_bytes,
        (agree_bne hoctet).dropWhile_bytes, length_bytes, hchar]
      cases body.dropWhile fun c => c != quote with
      | nil => rfl
      | cons stop rest =>
        obtain ⟨b, bs, heq, -⟩ := exists_utf8EncodeChar_eq_cons stop
        rw [bytes_cons, heq, List.cons_append]
        simp only [Except.map, Part.of, Except.ok.injEq, Part.mk.injEq, true_and]
        omega
    · obtain ⟨b, bs, heq, hb⟩ := agree_isQuote.exists_cons quote
      rw [bytes_cons, heq, List.cons_append]
      simp only [if_neg hquote, hb, length_bytes]
      rfl

/-! ### What has been read is a part of the text -/

theorem exists_taken_of_readKey {position : Nat} {first : Char} {cs : List Char}
    {part : Markup.Part} (h : Markup.readKey position first cs = .ok part) :
    ∃ taken, cs = taken ++ part.rest ∧
      part.position = position + byteLength (first :: taken) := by
  simp only [Markup.readKey, Markup.skipSpace] at h
  split at h
  · next rest hrest =>
    cases h
    have hequals : '='.utf8Size = 1 := rfl
    refine ⟨(cs.takeWhile fun c => !Markup.endsKey c) ++
      ((cs.dropWhile fun c => !Markup.endsKey c).takeWhile Markup.isSpace ++ ['=']), ?_, ?_⟩
    · rw [List.append_assoc, List.append_assoc, List.singleton_append, ← hrest,
        List.takeWhile_append_dropWhile, List.takeWhile_append_dropWhile]
    · simp only [byteLength_cons, byteLength_append, byteLength_nil, hequals]
      omega
  · cases h

theorem exists_taken_of_readValue {position : Nat} {cs : List Char} {part : Markup.Part}
    (h : Markup.readValue position cs = .ok part) :
    ∃ taken, cs = taken ++ part.rest ∧ part.position = position + byteLength taken := by
  obtain ⟨blank, quote, hblank, hquote, hnot, rfl⟩ := Markup.eq_append_of_readValue h
  have hne := Markup.forall_ne_of_notMem hnot
  obtain ⟨hspace, hsize⟩ : Markup.isSpace quote = false ∧ quote.utf8Size = 1 := by
    simp only [Markup.isQuote, Bool.or_eq_true, beq_iff_eq] at hquote
    rcases hquote with rfl | rfl <;> decide
  refine ⟨blank ++ quote :: (part.content ++ [quote]), by simp, ?_⟩
  simp only [Markup.readValue, Markup.skipSpace_append hblank hspace, if_pos hquote,
    Markup.takeWhile_append_stop hne (bne_self_eq_false _),
    Markup.dropWhile_append_stop hne (bne_self_eq_false _), Except.ok.injEq] at h
  rw [← congrArg Markup.Part.position h]
  simp only [byteLength_cons, byteLength_append, byteLength_nil, hsize]
  omega

/-! ### Rows of attributes -/

section

variable {seen : List (List Char × Nat)} {position start : Nat} {cs more : List Char}
  {first : Char} {b : UInt8} {bs : List UInt8}

def keysOf (seen : List (List Char × Nat)) : List (List UInt8 × Nat) :=
  seen.map fun k => (bytes k.1, k.2)

theorem find?_keysOf (seen : List (List Char × Nat)) (key : List Char) :
    ((keysOf seen).find? fun k => k.1 == bytes key) =
      (seen.find? fun k => k.1 == key).map fun k => (bytes k.1, k.2) := by
  have hsame : ∀ k : List Char × Nat, (bytes k.1 == bytes key) = (k.1 == key) := by
    intro k
    rw [Bool.eq_iff_iff, beq_iff_eq, beq_iff_eq, bytes_injective.eq_iff]
  rw [keysOf, List.find?_map]
  simp only [Function.comp_def, hsame]

theorem keysOf_concat (seen : List (List Char × Nat)) (key : List Char) (start : Nat) :
    keysOf (seen ++ [(key, start)]) = keysOf seen ++ [(bytes key, start)] := by
  simp [keysOf]

/-- The bytes behind a key are those of the text behind it. -/
theorem drop_key (h : bytes (first :: more) = b :: bs) {key : Markup.Part}
    (hkey : Markup.readKey start first more = .ok key) :
    bs.drop (key.position - (start + 1)) = bytes key.rest ∧ start + 1 ≤ key.position := by
  obtain ⟨taken, rfl, hposition⟩ := exists_taken_of_readKey hkey
  have hbytes : b :: bs = bytes (first :: taken) ++ bytes key.rest := by
    rw [← h, ← bytes_append]
    rfl
  have hpos : 0 < byteLength (first :: taken) := by
    have := first.utf8Size_pos
    rw [byteLength_cons]
    omega
  have hsize : key.position - (start + 1) + 1 = (bytes (first :: taken)).length := by
    rw [length_bytes]
    omega
  refine ⟨?_, by omega⟩
  rw [← List.drop_succ_cons (a := b), hsize, hbytes, List.drop_left]

theorem readAttribute_bytes (h : bytes (first :: more) = b :: bs) :
    readAttribute (keysOf seen) start b bs =
      match Markup.readKey start first more with
      | .error fault => .error fault
      | .ok key =>
        match seen.find? fun k => k.1 == key.content with
        | some previous => .error (.duplicated start previous.2)
        | none =>
          match Markup.readValue key.position key.rest with
          | .error fault => .error fault
          | .ok value =>
            .ok (⟨bytes key.content, bytes value.content⟩, value.position - (start + 1)) := by
  rw [readAttribute, readKey_bytes start h]
  cases hkey : Markup.readKey start first more with
  | error fault => rfl
  | ok key =>
    obtain ⟨hdrop, hle⟩ := drop_key h hkey
    have hstart : start + 1 + (key.position - (start + 1)) = key.position := by omega
    simp only [Except.map, Part.of, find?_keysOf, hdrop, hstart, readValue_bytes]
    cases seen.find? fun k => k.1 == key.content with
    | some previous => rfl
    | none =>
      cases hvalue : Markup.readValue key.position key.rest with
      | error fault => rfl
      | ok value =>
        obtain ⟨taken, -, hposition⟩ := exists_taken_of_readValue hvalue
        have hsize : key.position - (start + 1) + (value.position - key.position) =
            value.position - (start + 1) := by omega
        simp only [Option.map_none, hsize]

theorem readAttributes_cons {seen : List (List UInt8 × Nat)} {bs more : List UInt8}
    {first : UInt8} (h : bs.dropWhile isSpace = first :: more) (position : Nat) :
    readAttributes seen position bs =
      match readAttribute seen (position + (bs.takeWhile isSpace).length) first more with
      | .error fault => ⟨[], some fault⟩
      | .ok (a, size) =>
        let start := position + (bs.takeWhile isSpace).length
        let rest := readAttributes (seen ++ [(a.key, start)]) (start + 1 + size) (more.drop size)
        { rest with attributes := a :: rest.attributes } := by
  rw [readAttributes]
  split
  · next hnil => cases hnil.symm.trans h
  · next first' more' hcons =>
    obtain ⟨rfl, rfl⟩ := List.cons.inj (hcons.symm.trans h)
    rfl

theorem readAttributes_bytes_cons (hskip : (Markup.skipSpace position cs).2 = first :: more) :
    ∃ b bs, bytes (first :: more) = b :: bs ∧ ∀ keys, readAttributes keys position (bytes cs) =
      match readAttribute keys (Markup.skipSpace position cs).1 b bs with
      | .error fault => ⟨[], some fault⟩
      | .ok (a, size) =>
        let start := (Markup.skipSpace position cs).1
        let rest := readAttributes (keys ++ [(a.key, start)]) (start + 1 + size) (bs.drop size)
        { rest with attributes := a :: rest.attributes } := by
  obtain ⟨b, bs, heq⟩ := List.exists_cons_of_ne_nil
    (mt bytes_eq_nil_iff.mp (List.cons_ne_nil first more))
  have hdrop : (bytes cs).dropWhile isSpace = b :: bs := by
    rw [agree_isSpace.dropWhile_bytes, ← heq, ← hskip]
    rfl
  refine ⟨b, bs, heq, ?_⟩
  intro keys
  rw [readAttributes_cons hdrop, agree_isSpace.takeWhile_bytes, length_bytes]
  rfl

theorem readAttributes_bytes (seen : List (List Char × Nat)) (position : Nat) (cs : List Char) :
    readAttributes (keysOf seen) position (bytes cs) = .of (.readFrom seen position cs) := by
  fun_induction Markup.AttributeList.readFrom seen position cs with
  | case1 seen position cs hskip =>
    have hdrop : (bytes cs).dropWhile isSpace = [] := by
      rw [agree_isSpace.dropWhile_bytes]
      exact bytes_eq_nil_iff.mpr hskip
    rw [readAttributes]
    split
    · rfl
    · next hcons => cases hcons.symm.trans hdrop
  | case2 seen position cs first more hskip start fault hkey =>
    obtain ⟨b, bs, hbytes, hread⟩ := readAttributes_bytes_cons hskip
    rw [hread, readAttribute_bytes hbytes, hkey]
    rfl
  | case3 seen position cs first more hskip start key hkey previous hseen =>
    obtain ⟨b, bs, hbytes, hread⟩ := readAttributes_bytes_cons hskip
    rw [hread, readAttribute_bytes hbytes, hkey]
    dsimp only
    rw [hseen]
    rfl
  | case4 seen position cs first more hskip start key hkey hnew fault hvalue =>
    obtain ⟨b, bs, hbytes, hread⟩ := readAttributes_bytes_cons hskip
    rw [hread, readAttribute_bytes hbytes, hkey]
    dsimp only
    rw [hnew]
    dsimp only
    rw [hvalue]
    rfl
  | case5 seen position cs first more hskip start key hkey hnew value hvalue _ ih =>
    obtain ⟨b, bs, hbytes, hread⟩ := readAttributes_bytes_cons hskip
    obtain ⟨hdrop, hle⟩ := drop_key hbytes hkey
    obtain ⟨taken, htaken, hposition⟩ := exists_taken_of_readValue hvalue
    have hstart : start + 1 + (value.position - (start + 1)) = value.position := by omega
    have hrest : bs.drop (value.position - (start + 1)) = bytes value.rest := by
      have hsplit : value.position - (start + 1) =
          key.position - (start + 1) + (bytes taken).length := by
        rw [length_bytes]
        omega
      rw [hsplit, ← List.drop_drop, hdrop, htaken, bytes_append, List.drop_left]
    rw [hread, readAttribute_bytes hbytes, hkey]
    dsimp only
    rw [hnew]
    dsimp only
    rw [hvalue]
    dsimp only
    rw [hstart, hrest, ← keysOf_concat, ih]
    rfl

end

theorem attributes_bytes (tag : Markup.Tag) : attributes (bytes tag.text) = .of tag.attributes := by
  rw [attributes, tagName_bytes, length_bytes, agree_isSpace.not.dropWhile_bytes]
  exact readAttributes_bytes [] (byteLength tag.name) tag.attributeText

end Octets
end FirmwareTests
