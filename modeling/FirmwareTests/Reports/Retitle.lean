import FirmwareTests.Markup.Attribute
import FirmwareTests.Markup.Entity
import FirmwareTests.Markup.Scan

/-!
# Retitling a report

Gives the root of a document a new `name`. The root has to be a `testsuite`; its tag is
written anew with the same attributes in the same order, and a missing `name` comes
last. Every other token is written in its usual spelling.
-/

namespace FirmwareTests
namespace Reports

open Markup

/-- Why a document cannot be retitled. -/
inductive RetitleError where
  | wrongRoot (found : List Char)
  | noRoot
  | unclosed (depth : Nat)
  | malformed (fault : Malformed)
  deriving DecidableEq, Repr

def rootName : List Char :=
  "testsuite".toList

def titleKey : List Char :=
  "name".toList

namespace RetitleError

def message : RetitleError → String
  | wrongRoot found =>
    "root tag is `" ++ String.ofList found ++ "`, expected `" ++ String.ofList rootName ++ "`"
  | noRoot => "report does not contain a root element"
  | unclosed depth => s!"report ended with {depth} element(s) still open"
  | malformed fault => fault.message

def causes : RetitleError → List String
  | malformed fault => fault.error.causes
  | _ => []

end RetitleError

/-- Attributes with the given title: in the place of the one there was, or last. -/
def retitledAttributes (title : List Char) (attributes : List Attribute) : List Attribute :=
  let new : Attribute := ⟨titleKey, escape title⟩
  if attributes.any fun a => a.key == titleKey then
    attributes.map fun a => if a.key = titleKey then new else a
  else attributes ++ [new]

/-- The tag of a root with the given title. The tag ends at the given position. -/
def retitledTag (title : List Char) (tag : Tag) (position : Nat) : Except RetitleError Tag :=
  if tag.name = rootName then
    match tag.attributes.all with
    | .error fault => .error (.malformed ⟨position, .badAttribute fault⟩)
    | .ok attributes => .ok (.ofAttributes rootName (retitledAttributes title attributes))
  else .error (.wrongRoot tag.name)

/-- Tokens whose first tag is retitled. There are none when no tag is among them. -/
def retitledTokens (title : List Char) :
    List Located → Except RetitleError (Option (List Token))
  | [] => .ok none
  | t :: ts =>
    match t.token with
    | .start tag => do
      let tag ← retitledTag title tag t.position
      return some (.start tag :: ts.map Located.token)
    | .empty tag => do
      let tag ← retitledTag title tag t.position
      return some (.empty tag :: ts.map Located.token)
    | token => do
      let rest? ← retitledTokens title ts
      return rest?.map (token :: ·)

/-- The retitled document of a reading. A fault of the root comes before one that ends
the reading later. -/
def retitleReading (title : List Char) (reading : Reading) :
    Except RetitleError (List Char) := do
  let tokens? ← retitledTokens title reading.tokens
  match reading.ending, tokens? with
  | .broken fault, _ => .error (.malformed fault)
  | .complete, none => .error .noRoot
  | .complete, some tokens =>
    let depth := openElements tokens
    if depth = 0 then return Markup.render tokens else .error (.unclosed depth)

/-- Gives the root of a document a new title. -/
def retitle (title document : List Char) : Except RetitleError (List Char) :=
  retitleReading title (Markup.read document)

end Reports
end FirmwareTests
