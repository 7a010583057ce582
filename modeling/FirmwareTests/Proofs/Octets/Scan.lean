import Mathlib.Data.List.DropRight
import FirmwareTests.Proofs.Markup.Spelling

/-!
# Reading bytes

A reader of documents that sees bytes and no characters. It looks for single bytes and cuts
before them or behind them, whatever stands there; sizes and positions count what has been cut
off. Only the texts of faults are decoded.
-/

namespace FirmwareTests
namespace Octets

open Markup (BangKind Ending Error Malformed)
open Text

/-! ### Tokens -/

def isSpace (b : UInt8) : Bool :=
  b == ' '.toUInt8 || b == '\r'.toUInt8 || b == '\n'.toUInt8 || b == '\t'.toUInt8

def tagName (text : List UInt8) : List UInt8 :=
  text.takeWhile fun b => !isSpace b

def endTagName (text : List UInt8) : List UInt8 :=
  if text.all isSpace then text else text.rdropWhile isSpace

/-- A token, with the bytes that it was cut to. -/
inductive Token where
  | text (raw : List UInt8)
  | start (text : List UInt8)
  | empty (text : List UInt8)
  | close (text : List UInt8)
  | cdata (raw : List UInt8)
  | comment (raw : List UInt8)
  | instruction (raw : List UInt8)
  | doctype (raw : List UInt8)
  deriving DecidableEq, Repr

/-- A token and the position after it. -/
structure Located where
  token : Token
  position : Nat
  deriving DecidableEq, Repr

/-- The tokens read, and how reading ended. -/
structure Reading where
  tokens : List Located
  ending : Ending
  deriving DecidableEq, Repr

namespace Reading

def broken (position : Nat) (error : Error) : Reading :=
  ⟨[], .broken ⟨position, error⟩⟩

def cons (t : Located) (r : Reading) : Reading :=
  { r with tokens := t :: r.tokens }

/-- A reading with a text before it, if the text is not empty. -/
def withText (text : List UInt8) (position : Nat) (r : Reading) : Reading :=
  if text = [] then r else r.cons ⟨.text text, position⟩

end Reading

/-- A token read from the front of some bytes, and how many of them it takes. -/
structure Lexeme where
  token : Token
  size : Nat
  deriving DecidableEq, Repr

/-! ### Markup up to the next bracket -/

/-- The bytes before the next `>`, and how many bytes there are with it. -/
def readUntilBracket (bs : List UInt8) : List UInt8 × Nat :=
  let content := bs.takeWhile fun b => b != '>'.toUInt8
  (content, min (content.length + 1) bs.length)

/-- Reads an end tag, given the bytes after its slash. The slash is part of its size. -/
def readEndTag (bs : List UInt8) : Lexeme :=
  let content := readUntilBracket bs
  ⟨.close content.1, 1 + content.2⟩

/-- Reads an instruction, given the position of its question mark and the bytes after it.
The mark is part of its size. -/
def readInstruction (position : Nat) (bs : List UInt8) : Except Malformed Lexeme :=
  let content := readUntilBracket bs
  if content.1.getLast? = some '?'.toUInt8 ∧ content.1.dropLast ≠ [] then
    .ok ⟨.instruction content.1.dropLast, 1 + content.2⟩
  else .error ⟨position + (content.2 - content.1.length), .unclosed .instruction⟩

/-! ### Tags -/

/-- The quote that is open after a byte of a tag. -/
def quoteAfter : Option UInt8 → UInt8 → Option UInt8
  | none, b => if b = '"'.toUInt8 ∨ b = '\''.toUInt8 then some b else none
  | some quote, b => if b = quote then none else some quote

def tagText? : Option UInt8 → List UInt8 → Option (List UInt8)
  | _, [] => none
  | quote, b :: bs =>
    if quote = none ∧ b = '>'.toUInt8 then some []
    else (tagText? (quoteAfter quote b) bs).map (b :: ·)

/-- A start tag, or an empty tag when the bytes end with a slash. -/
def tagToken (text : List UInt8) : Token :=
  if text.getLast? = some '/'.toUInt8 then .empty text.dropLast else .start text

def readTag (position : Nat) (bs : List UInt8) : Except Malformed Lexeme :=
  match tagText? none bs with
  | none => .error ⟨position, .unclosed .element⟩
  | some text => .ok ⟨tagToken text, text.length + 1⟩

/-! ### Constructs that open with an exclamation mark -/

def bangKind? (b : UInt8) : Option BangKind :=
  if b = '['.toUInt8 then some .cdata
  else if b = '-'.toUInt8 then some .comment
  else if b = 'D'.toUInt8 ∨ b = 'd'.toUInt8 then some .doctype
  else none

def endsTwice (b : UInt8) (bs : List UInt8) : Bool :=
  bs.getLast? == some b && bs.dropLast.getLast? == some b

/-- Whether a `>` ends the construct, given the bytes before it from the exclamation mark
on. -/
def ends : BangKind → List UInt8 → Bool
  | .comment, before => 4 < before.length && endsTwice '-'.toUInt8 before
  | .cdata, before => endsTwice ']'.toUInt8 before
  | .doctype, before => before.count '<'.toUInt8 == before.count '>'.toUInt8

/-- The bytes before the first `>` that ends the construct, given those that have been
passed. -/
def bangText? (kind : BangKind) (before : List UInt8) : List UInt8 → Option (List UInt8)
  | [] => none
  | b :: bs =>
    if b = '>'.toUInt8 ∧ ends kind before then some before
    else bangText? kind (before ++ [b]) bs

/-- The capital letter of a letter; other bytes stay. -/
def upper (b : UInt8) : UInt8 :=
  if 'a'.toUInt8 ≤ b ∧ b ≤ 'z'.toUInt8 then b - 0x20 else b

/-- The bytes of a construct after its opening, if the opening is right. -/
def content? (kind : BangKind) (text : List UInt8) : Option (List UInt8) :=
  let opening := bytes kind.opening
  if (text.take opening.length).map upper = opening then some (text.drop opening.length)
  else none

def bangToken (kind : BangKind) (text : List UInt8) : Except Error Token :=
  match kind, content? kind text with
  | .comment, some content => .ok (.comment content.dropLast.dropLast)
  | .cdata, some content => .ok (.cdata content.dropLast.dropLast)
  | .doctype, some content =>
    if content.all isSpace then .error .emptyDoctype
    else .ok (.doctype (content.dropWhile isSpace))
  | _, none => .error (.unclosed kind.construct)

/-- Reads a construct that opens with an exclamation mark, given the position of the mark
and the bytes after it. The mark is part of its size. -/
def readBang (position : Nat) : List UInt8 → Except Malformed Lexeme
  | [] => .error ⟨position, .unclosed .bang⟩
  | b :: bs =>
    match bangKind? b with
    | none => .error ⟨position, .unexpectedBang b⟩
    | some kind =>
      match bangText? kind ['!'.toUInt8] (b :: bs) with
      | none => .error ⟨position, .unclosed kind.construct⟩
      | some text =>
        match bangToken kind text with
        | .ok token => .ok ⟨token, text.length + 1⟩
        | .error error => .error ⟨position + text.length + 1, error⟩

/-! ### Documents -/

def readMarkup (position : Nat) (bs : List UInt8) : Except Malformed Lexeme :=
  if bs.head? = some '!'.toUInt8 then readBang position bs.tail
  else if bs.head? = some '/'.toUInt8 then .ok (readEndTag bs.tail)
  else if bs.head? = some '?'.toUInt8 then readInstruction position bs.tail
  else readTag position bs

def scan (position : Nat) (bs : List UInt8) : Reading :=
  let text := bs.takeWhile fun b => b != '<'.toUInt8
  let here := position + text.length
  match h : bs.dropWhile fun b => b != '<'.toUInt8 with
  | [] => .withText text (here - 1) ⟨[], .complete⟩
  | _ :: markup =>
    .withText text here <|
      if markup = [] then ⟨[], .complete⟩
      else
        match readMarkup (here + 1) markup with
        | .error malformed => ⟨[], .broken malformed⟩
        | .ok lexeme =>
          have : markup.length < bs.length := by
            have hlength := (List.dropWhile_suffix (l := bs) fun b => b != '<'.toUInt8).length_le
            rwa [h] at hlength
          (scan (here + 1 + lexeme.size) (markup.drop lexeme.size)).cons
            ⟨lexeme.token, here + 1 + lexeme.size⟩
termination_by bs.length

def dropByteOrderMark : List UInt8 → List UInt8
  | 0xEF :: 0xBB :: 0xBF :: bs => bs
  | bs => bs

/-- Some bytes as a text, for a message; bytes of no text are left out. -/
def decoded (bs : List UInt8) : List Char :=
  (ofBytes? bs).getD []

/-- Holds the end tags of a row of tokens against the names of the open elements,
innermost first. -/
def nest (names : List (List UInt8)) : List Located → Ending → Reading
  | [], ending => ⟨[], ending⟩
  | ⟨token, position⟩ :: ts, ending =>
    match token with
    | .start text => (nest (tagName text :: names) ts ending).cons ⟨token, position⟩
    | .close text =>
      match names with
      | [] => .broken (position - (1 + text.length)) (.endMismatch [] (decoded text))
      | name :: outer =>
        if name = endTagName text then (nest outer ts ending).cons ⟨token, position⟩
        else .broken (position - (1 + text.length))
          (.endMismatch (decoded name) (decoded (endTagName text)))
    | _ => (nest names ts ending).cons ⟨token, position⟩

def read (document : List UInt8) : Reading :=
  let scanned := scan 0 (dropByteOrderMark document)
  nest [] scanned.tokens scanned.ending

end Octets
end FirmwareTests
