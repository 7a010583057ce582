import FirmwareTests.Markup.Reading

/-!
# Scanning

Splits a document into tokens. Text runs to the next `<`; what follows the `<` decides
the kind of markup:

* `!` and `-`, `[` or `D`: a comment, a CDATA section or a doctype;
* `/`: an end tag, up to the next `>` or the end of the document;
* `?`: an instruction, up to the next `>` or the end of the document;
* anything else: a tag, up to the next `>` outside quotes.

A `<` that is the last character of a document is passed over.
-/

namespace FirmwareTests
namespace Markup

open Text

/-- A token read from the front of a text, the position after it, and the text from
there on. -/
structure Lexeme where
  token : Token
  position : Nat
  rest : List Char

/-- Splits at the next `>`. There is no second part when the text ends first. -/
def splitAtBracket (cs : List Char) : List Char × Option (List Char) :=
  let content := cs.takeWhile fun c => c != '>'
  match cs.dropWhile fun c => c != '>' with
  | [] => (content, none)
  | _ :: rest => (content, some rest)

theorem length_rest_splitAtBracket_le {cs rest : List Char}
    (h : (splitAtBracket cs).2 = some rest) : rest.length ≤ cs.length := by
  have hdrop := (List.dropWhile_suffix (l := cs) fun c => c != '>').length_le
  simp only [splitAtBracket] at h
  split at h
  · cases h
  · next hrest =>
    cases h
    simp only [hrest, List.length_cons] at hdrop
    omega

/-- The length of the bracket that ends a text, if it is there. -/
def bracketLength : Option (List Char) → Nat
  | some _ => 1
  | none => 0

def readEndTag (position : Nat) (cs : List Char) : Lexeme :=
  let split := splitAtBracket cs
  ⟨.close ⟨split.1⟩, position + byteLength split.1 + bracketLength split.2, split.2.getD []⟩

theorem length_rest_readEndTag_le (position : Nat) (cs : List Char) :
    (readEndTag position cs).rest.length ≤ cs.length := by
  simp only [readEndTag]
  cases h : (splitAtBracket cs).2 with
  | none => simp
  | some rest => simpa using length_rest_splitAtBracket_le h

/-- Reads an instruction, given the text after its question mark. The text must end with
another one and hold something before it; else all of it is given back. -/
def readInstruction (position : Nat) (cs : List Char) : Except Malformed Lexeme :=
  let split := splitAtBracket cs
  if split.1.getLast? = some '?' ∧ split.1.dropLast ≠ [] then
    .ok ⟨.instruction split.1.dropLast,
      position + byteLength split.1 + bracketLength split.2, split.2.getD []⟩
  else .error ⟨position - 1 + bracketLength split.2, .unclosed .instruction⟩

theorem length_rest_readInstruction_le {position : Nat} {cs : List Char} {lexeme : Lexeme}
    (h : readInstruction position cs = .ok lexeme) : lexeme.rest.length ≤ cs.length := by
  simp only [readInstruction] at h
  split at h
  · cases h
    cases hrest : (splitAtBracket cs).2 with
    | none => simp
    | some rest => simpa using length_rest_splitAtBracket_le hrest
  · cases h

/-- The quote that is open after a character of a tag. -/
def quoteAfter : Option Char → Char → Option Char
  | none, c => if c = '"' ∨ c = '\'' then some c else none
  | some quote, c => if c = quote then none else some quote

def splitTag : Option Char → List Char → Option (List Char × List Char)
  | _, [] => none
  | quote, c :: cs =>
    if quote = none ∧ c = '>' then some ([], cs)
    else (splitTag (quoteAfter quote c) cs).map fun split => (c :: split.1, split.2)

theorem length_rest_splitTag_le {quote : Option Char} {cs : List Char}
    {split : List Char × List Char} (h : splitTag quote cs = some split) :
    split.2.length ≤ cs.length := by
  induction cs generalizing quote split with
  | nil => simp [splitTag] at h
  | cons c cs ih =>
    simp only [splitTag] at h
    split at h
    · cases h
      simp
    · obtain ⟨inner, hinner, rfl⟩ := Option.map_eq_some_iff.1 h
      have := ih hinner
      simp only [List.length_cons]
      omega

/-- A start tag, or an empty tag when the text ends with a slash. -/
def tagToken (text : List Char) : Token :=
  if text.getLast? = some '/' then .empty ⟨text.dropLast⟩ else .start ⟨text⟩

def readTag (position : Nat) (cs : List Char) : Except Malformed Lexeme :=
  match splitTag none cs with
  | none => .error ⟨position, .unclosed .element⟩
  | some (text, rest) => .ok ⟨tagToken text, position + byteLength text + 1, rest⟩

theorem length_rest_readTag_le {position : Nat} {cs : List Char} {lexeme : Lexeme}
    (h : readTag position cs = .ok lexeme) : lexeme.rest.length ≤ cs.length := by
  simp only [readTag] at h
  split at h
  · cases h
  · next hsplit =>
    cases h
    exact length_rest_splitTag_le hsplit

/-- The constructs that open with an exclamation mark. -/
inductive BangKind where
  | comment
  | cdata
  | doctype
  deriving DecidableEq, Repr

namespace BangKind

def ofChar? (c : Char) : Option BangKind :=
  if c = '[' then some cdata
  else if c = '-' then some comment
  else if c = 'D' ∨ c = 'd' then some doctype
  else none

def construct : BangKind → Construct
  | comment => .comment
  | cdata => .cdata
  | doctype => .doctype

/-- Whether a `>` ends the construct, given the text before it from the exclamation mark
on, last character first. A comment of fewer than five characters does not end. -/
def ends : BangKind → List Char → Bool
  | comment, before => 4 < before.length && "--".toList.isPrefixOf before
  | cdata, before => "]]".toList.isPrefixOf before
  | doctype, before => before.count '<' == before.count '>'

/-- The text of a construct after its opening, if the opening is right. Letters of the
opening may be in either case. -/
def content? (kind : BangKind) (text : List Char) : Option (List Char) :=
  let opening := match kind with
    | comment => "!--".toList
    | cdata => "![CDATA[".toList
    | doctype => "!DOCTYPE".toList
  if (text.take opening.length).map Char.toUpper = opening then some (text.drop opening.length)
  else none

def token (kind : BangKind) (text : List Char) : Except Error Token :=
  match kind, kind.content? text with
  | comment, some content => .ok (.comment content.dropLast.dropLast)
  | cdata, some content => .ok (.cdata content.dropLast.dropLast)
  | doctype, some content =>
    if content.all isSpace then .error .emptyDoctype
    else .ok (.doctype (content.dropWhile isSpace))
  | _, none => .error (.unclosed kind.construct)

end BangKind

/-- Splits at the first `>` that ends the construct, given the text before, last
character first. -/
def splitBang (kind : BangKind) (before : List Char) :
    List Char → Option (List Char × List Char)
  | [] => none
  | c :: cs =>
    if c = '>' ∧ kind.ends before then some (before.reverse, cs)
    else splitBang kind (c :: before) cs

theorem length_rest_splitBang_le {kind : BangKind} {before cs : List Char}
    {split : List Char × List Char} (h : splitBang kind before cs = some split) :
    split.2.length ≤ cs.length := by
  induction cs generalizing before with
  | nil => simp [splitBang] at h
  | cons c cs ih =>
    simp only [splitBang] at h
    split at h
    · cases h
      simp
    · have := ih h
      simp only [List.length_cons]
      omega

/-- Reads a construct that opens with an exclamation mark, given the position of the
mark and the text after it. -/
def readBang (position : Nat) (cs : List Char) : Except Malformed Lexeme :=
  match cs with
  | [] => .error ⟨position, .unclosed .bang⟩
  | c :: _ =>
    match BangKind.ofChar? c with
    | none => .error ⟨position, .unexpectedBang ((String.utf8EncodeChar c).headD 0)⟩
    | some kind =>
      match splitBang kind ['!'] cs with
      | none => .error ⟨position, .unclosed kind.construct⟩
      | some (text, rest) =>
        let after := position + byteLength text + 1
        match kind.token text with
        | .ok token => .ok ⟨token, after, rest⟩
        | .error error => .error ⟨after, error⟩

theorem length_rest_readBang_le {position : Nat} {cs : List Char} {lexeme : Lexeme}
    (h : readBang position cs = .ok lexeme) : lexeme.rest.length ≤ cs.length := by
  simp only [readBang] at h
  split at h
  · cases h
  · split at h
    · cases h
    · split at h
      · cases h
      · next hsplit =>
        split at h
        · cases h
          exact length_rest_splitBang_le hsplit
        · cases h

def readMarkup (position : Nat) (cs : List Char) : Except Malformed Lexeme :=
  match cs with
  | '!' :: more => readBang position more
  | '/' :: more => .ok (readEndTag (position + 1) more)
  | '?' :: more => readInstruction (position + 1) more
  | cs => readTag position cs

theorem length_rest_readMarkup_le {position : Nat} {cs : List Char} {lexeme : Lexeme}
    (h : readMarkup position cs = .ok lexeme) : lexeme.rest.length ≤ cs.length := by
  unfold readMarkup at h
  split at h
  · have := length_rest_readBang_le h
    simp only [List.length_cons]
    omega
  · cases h
    next more =>
      have := length_rest_readEndTag_le (position + 1) more
      simp only [List.length_cons]
      omega
  · have := length_rest_readInstruction_le h
    simp only [List.length_cons]
    omega
  · exact length_rest_readTag_le h

/-- A reading with a text before it, if the text is not empty. -/
def Reading.withText (text : List Char) (position : Nat) (r : Reading) : Reading :=
  if text = [] then r else r.cons ⟨.text text, position⟩

/-- Scans a document from the given position on. The position after a text is that of
the `<` that ends it; a text that ends with the document stands one byte before the end. -/
def scan (position : Nat) (cs : List Char) : Reading :=
  let text := cs.takeWhile fun c => c != '<'
  let here := position + byteLength text
  match h : cs.dropWhile fun c => c != '<' with
  | [] => Reading.withText text (here - 1) ⟨[], .complete⟩
  | [_] => Reading.withText text here ⟨[], .complete⟩
  | _ :: first :: more =>
    match hread : readMarkup (here + 1) (first :: more) with
    | .error malformed => Reading.withText text here ⟨[], .broken malformed⟩
    | .ok lexeme =>
      have : lexeme.rest.length < cs.length := by
        have h₁ := (List.dropWhile_suffix (l := cs) fun c => c != '<').length_le
        have h₂ := length_rest_readMarkup_le hread
        simp only [h, List.length_cons] at h₁ h₂
        omega
      Reading.withText text here
        ((scan lexeme.position lexeme.rest).cons ⟨lexeme.token, lexeme.position⟩)
termination_by cs.length

/-- A document without its byte order mark. Positions do not count the mark. -/
def dropByteOrderMark : List Char → List Char
  | '\uFEFF' :: cs => cs
  | cs => cs

def read (document : List Char) : Reading :=
  let scanned := scan 0 (dropByteOrderMark document)
  .nest [] scanned.tokens scanned.ending

end Markup
end FirmwareTests
