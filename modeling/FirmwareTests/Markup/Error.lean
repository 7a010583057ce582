import FirmwareTests.Text.Quoted

/-!
# What can be wrong with a document

Faults of attributes and of entities carry byte positions of their own: an attribute
counts from the start of its tag, an entity from the start of the text it stands in.
`Malformed` adds the position in the document at which reading stopped.
-/

namespace FirmwareTests
namespace Markup

/-- A construct that the end of the document, or a wrong opening, cuts off. -/
inductive Construct where
  | element
  | comment
  | cdata
  | doctype
  | instruction
  | bang
  deriving DecidableEq, Repr

def Construct.name : Construct → String
  | element => "Element"
  | comment => "Comment"
  | cdata => "CData"
  | doctype => "DOCTYPE"
  | instruction => "XmlDecl"
  | bang => "Bang"

/-- A fault in the attributes of a tag. -/
inductive AttributeFault where
  | expectedEquals (position : Nat)
  | expectedValue (position : Nat)
  | unquotedValue (position : Nat)
  | missingQuote (position : Nat) (quote : Char)
  | duplicated (position previous : Nat)
  deriving DecidableEq, Repr

def AttributeFault.message : AttributeFault → String
  | expectedEquals p => s!"position {p}: attribute key must be directly followed by `=` or space"
  | expectedValue p => s!"position {p}: `=` must be followed by an attribute value"
  | unquotedValue p => s!"position {p}: attribute value must be enclosed in `\"` or `'`"
  | missingQuote p q => s!"position {p}: missing closing quote `{q}` in attribute value"
  | duplicated p q =>
    s!"position {p}: duplicated attribute, previous declaration at position {q}"

/-- A fault in an entity. Ranges hold the first byte and the byte after the last. A bad
digit is known by the first byte of its character. -/
inductive EntityFault where
  | null (start stop : Nat)
  | unknown (start stop : Nat) (symbol : List Char)
  | unterminated (start stop : Nat)
  | longHexadecimal
  | badHexadecimal (byte : UInt8)
  | longDecimal
  | badDecimal (byte : UInt8)
  | noCodePoint (value : Nat)
  deriving DecidableEq, Repr

def byteText (b : UInt8) : String :=
  String.singleton (Char.ofNat b.toNat)

def EntityFault.message : EntityFault → String
  | null a b =>
    s!"Error while escaping character at range {a}..{b}: Null character entity not allowed"
  | unknown a b symbol =>
    let name := String.ofList (Text.quoted symbol)
    s!"Error while escaping character at range {a}..{b}: Unrecognized escape symbol: {name}"
  | unterminated a b =>
    s!"Error while escaping character at range {a}..{b}: Cannot find ';' after '&'"
  | longHexadecimal => "Cannot convert hexadecimal to utf8"
  | badHexadecimal b => "'" ++ byteText b ++ "' is not a valid hexadecimal character"
  | longDecimal => "Cannot convert decimal to utf8"
  | badDecimal b => "'" ++ byteText b ++ "' is not a valid decimal character"
  | noCodePoint n => s!"'{n}' is not a valid codepoint"

/-- A fault of a document. -/
inductive Error where
  | unclosed (construct : Construct)
  | endMismatch (expected found : List Char)
  | unexpectedBang (byte : UInt8)
  | emptyDoctype
  | badAttribute (fault : AttributeFault)
  | badEntity (fault : EntityFault)
  deriving DecidableEq, Repr

def Error.message : Error → String
  | unclosed c => "Unexpected EOF during reading " ++ c.name
  | endMismatch expected found =>
    "Expecting </" ++ String.ofList expected ++ "> found </" ++ String.ofList found ++ ">"
  | unexpectedBang b =>
    "Only Comment (`--`), CDATA (`[CDATA[`) and DOCTYPE (`DOCTYPE`) nodes can start with a '!', " ++
      "but symbol `" ++ byteText b ++ "` found"
  | emptyDoctype => "DOCTYPE declaration must not be empty"
  | badAttribute f => "error while parsing attribute: " ++ f.message
  | badEntity f => f.message

/-- A fault as a chain of causes: its own text, then that of the attribute or entity. -/
def Error.causes (e : Error) : List String :=
  match e with
  | badAttribute f => [e.message, f.message]
  | badEntity f => [e.message, f.message]
  | _ => [e.message]

/-- A fault and the byte position at which reading stopped. -/
structure Malformed where
  position : Nat
  error : Error
  deriving DecidableEq, Repr

def Malformed.message (m : Malformed) : String :=
  s!"malformed XML at byte offset {m.position}"

end Markup
end FirmwareTests
