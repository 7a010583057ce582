import FirmwareTests.Markup.Error
import FirmwareTests.Markup.Token
import FirmwareTests.Text.Utf8

/-!
# Attributes

The attributes of a tag are read from the left until the first fault. A key runs to an
equals sign or white space and may begin with any character that is no white space; a
value stands between two equal quotes and may hold anything else. Keys are compared
with those before them as soon as their equals sign is seen, before the value is.
-/

namespace FirmwareTests
namespace Markup

open Text

/-- An attribute: its key, and its value as it stands between its quotes. -/
structure Attribute where
  key : List Char
  value : List Char
  deriving DecidableEq, Repr

/-- The usual spelling of an attribute: a space, and double quotes whatever the value. -/
def Attribute.render (a : Attribute) : List Char :=
  ' ' :: a.key ++ "=\"".toList ++ a.value ++ "\"".toList

/-- A text without its leading white space, and the position at which it then begins. -/
def skipSpace (position : Nat) (cs : List Char) : Nat × List Char :=
  (position + byteLength (cs.takeWhile isSpace), cs.dropWhile isSpace)

theorem length_skipSpace_le (position : Nat) (cs : List Char) :
    (skipSpace position cs).2.length ≤ cs.length :=
  (List.dropWhile_suffix isSpace).length_le

def endsKey (c : Char) : Bool :=
  c == '=' || isSpace c

/-- A part of a text, the position after it, and the text from there on. -/
structure Part where
  content : List Char
  position : Nat
  rest : List Char

/-- Reads a key, given its first character, and the equals sign that belongs to it. -/
def readKey (position : Nat) (first : Char) (cs : List Char) : Except AttributeFault Part :=
  let key := first :: cs.takeWhile fun c => !endsKey c
  let after := skipSpace (position + byteLength key) (cs.dropWhile fun c => !endsKey c)
  match after.2 with
  | '=' :: rest => .ok ⟨key, after.1 + 1, rest⟩
  | _ => .error (.expectedEquals after.1)

theorem length_rest_readKey_le {position : Nat} {first : Char} {cs : List Char} {part : Part}
    (h : readKey position first cs = .ok part) : part.rest.length ≤ cs.length := by
  have hdrop := (List.dropWhile_suffix (l := cs) fun c => !endsKey c).length_le
  have hskip := length_skipSpace_le
    (position + byteLength (first :: cs.takeWhile fun c => !endsKey c))
    (cs.dropWhile fun c => !endsKey c)
  simp only [readKey] at h
  split at h
  · next hrest =>
    cases h
    simp only [hrest, List.length_cons] at hskip
    simp only
    omega
  · cases h

def isQuote (c : Char) : Bool :=
  c == '"' || c == '\''

def readValue (position : Nat) (cs : List Char) : Except AttributeFault Part :=
  let before := skipSpace position cs
  match before.2 with
  | [] => .error (.expectedValue before.1)
  | quote :: body =>
    if isQuote quote then
      let value := body.takeWhile fun c => c != quote
      let stop := before.1 + 1 + byteLength value
      match body.dropWhile fun c => c != quote with
      | _ :: rest => .ok ⟨value, stop + 1, rest⟩
      | [] => .error (.missingQuote stop quote)
    else .error (.unquotedValue before.1)

theorem length_rest_readValue_lt {position : Nat} {cs : List Char} {part : Part}
    (h : readValue position cs = .ok part) : part.rest.length < cs.length := by
  have hskip := length_skipSpace_le position cs
  simp only [readValue] at h
  split at h
  · cases h
  · next quote body hbody =>
    split at h
    · have hdrop := (List.dropWhile_suffix (l := body) fun c => c != quote).length_le
      split at h
      · next hrest =>
        cases h
        simp only [hbody, List.length_cons] at hskip
        simp only [hrest, List.length_cons] at hdrop
        simp only
        omega
      · cases h
    · cases h

/-- The attributes read from a tag, and the fault that ended the reading, if one did. -/
structure AttributeList where
  attributes : List Attribute
  fault : Option AttributeFault
  deriving DecidableEq, Repr

namespace AttributeList

def broken (fault : AttributeFault) : AttributeList :=
  ⟨[], some fault⟩

def cons (a : Attribute) (list : AttributeList) : AttributeList :=
  { list with attributes := a :: list.attributes }

def readFrom (seen : List (List Char × Nat)) (position : Nat) (cs : List Char) : AttributeList :=
  match hskip : (skipSpace position cs).2 with
  | [] => ⟨[], none⟩
  | first :: more =>
    let start := (skipSpace position cs).1
    match hkey : readKey start first more with
    | .error fault => broken fault
    | .ok key =>
      match seen.find? fun k => k.1 == key.content with
      | some previous => broken (.duplicated start previous.2)
      | none =>
        match hvalue : readValue key.position key.rest with
        | .error fault => broken fault
        | .ok value =>
          have : value.rest.length < cs.length := by
            have h₁ := length_skipSpace_le position cs
            have h₂ := length_rest_readKey_le hkey
            have h₃ := length_rest_readValue_lt hvalue
            simp only [hskip, List.length_cons] at h₁
            omega
          (readFrom (seen ++ [(key.content, start)]) value.position value.rest).cons
            ⟨key.content, value.content⟩
termination_by cs.length

/-- The value of an attribute, as far as a fault lets it be found: a fault after the
attribute does not matter. -/
def find? (list : AttributeList) (key : List Char) :
    Except AttributeFault (Option (List Char)) :=
  match list.attributes.find? fun a => a.key == key, list.fault with
  | some a, _ => .ok (some a.value)
  | none, some fault => .error fault
  | none, none => .ok none

/-- All attributes, if there is no fault. -/
def all (list : AttributeList) : Except AttributeFault (List Attribute) :=
  match list.fault with
  | some fault => .error fault
  | none => .ok list.attributes

end AttributeList

/-- The attributes of a tag, with positions counted from its first character. -/
def Tag.attributes (t : Tag) : AttributeList :=
  .readFrom [] (byteLength t.name) t.attributeText

/-- The tag with the given name and attributes, in the usual spelling. -/
def Tag.ofAttributes (name : List Char) (attributes : List Attribute) : Tag :=
  ⟨name ++ attributes.flatMap Attribute.render⟩

end Markup
end FirmwareTests
