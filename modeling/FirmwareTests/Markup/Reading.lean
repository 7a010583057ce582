import FirmwareTests.Markup.Error
import FirmwareTests.Markup.Token
import FirmwareTests.Text.Utf8

/-!
# Readings

What has been read of a document: its tokens, each with the byte position at which
reading stood after it, and how reading ended. Nesting is a second pass over the
tokens, which ends a reading at the first end tag that does not close the innermost
open element. Elements still open at the end are no fault here.
-/

namespace FirmwareTests
namespace Markup

open Text

/-- A token and the position after it. -/
structure Located where
  token : Token
  position : Nat
  deriving DecidableEq, Repr

inductive Ending where
  | complete
  | broken (malformed : Malformed)
  deriving DecidableEq, Repr

/-- The tokens read, and how reading ended. -/
structure Reading where
  tokens : List Located
  ending : Ending
  deriving DecidableEq, Repr

namespace Reading

def broken (position : Nat) (error : Error) : Reading :=
  ⟨[], .broken ⟨position, error⟩⟩

def cons (t : Located) (r : Reading) : Reading :=
  { r with tokens := t :: r.tokens }

@[simp] theorem tokens_cons (t : Located) (r : Reading) : (r.cons t).tokens = t :: r.tokens := rfl

@[simp] theorem ending_cons (t : Located) (r : Reading) : (r.cons t).ending = r.ending := rfl

/-- The position of a fault in an end tag: the text of the tag is given back, slash
included. -/
def endTagPosition (position : Nat) (tag : EndTag) : Nat :=
  position - (1 + byteLength tag.text)

/-- Holds the end tags of a row of tokens against the names of the open elements,
innermost first. When nothing is open, the text of the end tag is reported as it stands. -/
def nest (names : List (List Char)) : List Located → Ending → Reading
  | [], ending => ⟨[], ending⟩
  | ⟨token, position⟩ :: ts, ending =>
    match token with
    | .start tag => (nest (tag.name :: names) ts ending).cons ⟨token, position⟩
    | .close tag =>
      match names with
      | [] => broken (endTagPosition position tag) (.endMismatch [] tag.text)
      | name :: outer =>
        if name = tag.name then (nest outer ts ending).cons ⟨token, position⟩
        else broken (endTagPosition position tag) (.endMismatch name tag.name)
    | _ => (nest names ts ending).cons ⟨token, position⟩

end Reading
end Markup
end FirmwareTests
