import FirmwareTests.Markup.Error
import FirmwareTests.Text.Utf8

/-!
# Entities

Five characters have an entity of their own and are always escaped. Reading also knows
character references, in decimal and hexadecimal digits. An entity runs from an
ampersand to the next semicolon with no ampersand between them; a semicolon elsewhere
stands for itself.
-/

namespace FirmwareTests
namespace Markup

open Text

/-- The entity of a character, if it has one, or the character itself. -/
def escapeChar : Char → List Char
  | '<' => "&lt;".toList
  | '>' => "&gt;".toList
  | '\'' => "&apos;".toList
  | '&' => "&amp;".toList
  | '"' => "&quot;".toList
  | c => [c]

def escape (cs : List Char) : List Char :=
  cs.flatMap escapeChar

@[simp] theorem escape_nil : escape [] = [] := rfl

@[simp] theorem escape_cons (c : Char) (cs : List Char) :
    escape (c :: cs) = escapeChar c ++ escape cs := rfl

@[simp] theorem escape_append (cs ds : List Char) : escape (cs ++ ds) = escape cs ++ escape ds := by
  simp [escape]

def namedEntity? (name : List Char) : Option Char :=
  if name = "lt".toList then some '<'
  else if name = "gt".toList then some '>'
  else if name = "apos".toList then some '\''
  else if name = "amp".toList then some '&'
  else if name = "quot".toList then some '"'
  else none

/-- How the number of a character reference is written. -/
inductive Radix where
  | decimal
  | hexadecimal
  deriving DecidableEq, Repr

namespace Radix

def base : Radix → Nat
  | decimal => 10
  | hexadecimal => 16

/-- The most bytes that a number may take, leading zeros included. -/
def maxLength : Radix → Nat
  | decimal => 7
  | hexadecimal => 6

def tooLong : Radix → EntityFault
  | decimal => .longDecimal
  | hexadecimal => .longHexadecimal

def badDigit : Radix → UInt8 → EntityFault
  | decimal => .badDecimal
  | hexadecimal => .badHexadecimal

def digit? (r : Radix) (c : Char) : Option Nat :=
  if c.isDigit then some (c.toNat - '0'.toNat)
  else if r = hexadecimal then
    if 'a' ≤ c ∧ c ≤ 'f' then some (c.toNat - 'a'.toNat + 10)
    else if 'A' ≤ c ∧ c ≤ 'F' then some (c.toNat - 'A'.toNat + 10)
    else none
  else none

/-- The value of a row of digits; none at all have the value zero. -/
def digitsFrom (r : Radix) (value : Nat) : List Char → Except EntityFault Nat
  | [] => .ok value
  | c :: cs =>
    match r.digit? c with
    | some d => r.digitsFrom (r.base * value + d) cs
    | none => .error (r.badDigit ((String.utf8EncodeChar c).headD 0))

/-- The value of a number. Its length is looked at before its digits. -/
def value (r : Radix) (cs : List Char) : Except EntityFault Nat :=
  if r.maxLength < byteLength cs then .error r.tooLong else r.digitsFrom 0 cs

end Radix

/-- The number of a character reference, given the text after its number sign. -/
def referenceValue : List Char → Except EntityFault Nat
  | 'x' :: digits => Radix.hexadecimal.value digits
  | digits => Radix.decimal.value digits

/-- The character of a reference. Zero is refused, and so is a number of no character. -/
def referencedChar (start stop : Nat) (number : List Char) : Except EntityFault Char := do
  let n ← referenceValue number
  if n = 0 then throw (.null start stop)
  if n.isValidChar then return Char.ofNat n
  throw (.noCodePoint n)

/-- The character that an entity stands for, given the position of its ampersand and
the text between ampersand and semicolon. -/
def entityChar (start : Nat) (body : List Char) : Except EntityFault Char :=
  let stop := start + 1 + byteLength body
  match body with
  | '#' :: number => referencedChar start stop number
  | name =>
    match namedEntity? name with
    | some c => .ok c
    | none => .error (.unknown (start + 1) stop name)

/-- Whether a character ends the text that may be an entity. -/
def endsEntity (c : Char) : Bool :=
  c == '&' || c == ';'

/-- Replaces the entities of a text that begins at the given position. -/
def unescapeFrom (position : Nat) : List Char → Except EntityFault (List Char)
  | [] => .ok []
  | c :: cs =>
    if c = '&' then
      let body := cs.takeWhile fun c => !endsEntity c
      match h : cs.dropWhile fun c => !endsEntity c with
      | ';' :: rest => do
        have : rest.length < cs.length := by
          have := (List.dropWhile_suffix (l := cs) fun c => !endsEntity c).length_le
          simp only [h, List.length_cons] at this
          omega
        let here ← entityChar position body
        let more ← unescapeFrom (position + byteLength body + 2) rest
        return here :: more
      | _ => .error (.unterminated position (position + 1 + byteLength cs))
    else do
      let more ← unescapeFrom (position + c.utf8Size) cs
      return c :: more
termination_by cs => cs.length

def unescape (cs : List Char) : Except EntityFault (List Char) :=
  unescapeFrom 0 cs

end Markup
end FirmwareTests
