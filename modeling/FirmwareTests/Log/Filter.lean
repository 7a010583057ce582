import FirmwareTests.Log.Record
import FirmwareTests.Text.Segments
import FirmwareTests.Text.Utf8

/-!
# Log filters

The log is printed as far as a filter keeps it. A filter is a row of directives. A
directive is for the targets that begin with its text, and for records that have its
fields; the only field here is the message. The first directive that is for a record
decides by its level. Directives stand in order of
how much they ask for: those with a target first, the longest target first, then those
with the most fields; two that ask for the same cannot stand together, and the later
one replaces the earlier.
-/

namespace FirmwareTests
namespace Log

/-- A directive. Its level is the number of the last level that it keeps, zero if none. -/
structure Directive where
  target : Option String
  fields : List String
  level : Nat
  deriving DecidableEq, Repr

/-- Why a text is no filter. -/
inductive FilterError where
  | manyEquals
  | manyFieldLists
  | openFieldList
  | badLevel
  deriving DecidableEq, Repr

def FilterError.message : FilterError → String
  | manyEquals =>
    "invalid filter directive: too many '=' in filter directive, expected 0 or 1"
  | manyFieldLists =>
    "invalid filter directive: too many '[\x7b' in filter directive, expected 0 or 1"
  | openFieldList =>
    "invalid filter directive: expected fields list to end with '\x7d]'"
  | badLevel =>
    "error parsing level filter: expected one of \"off\", \"error\", \"warn\", \"info\", " ++
      "\"debug\", \"trace\", or a number 0-5"

namespace Directive

/-- The number of a level by name, in letters of either case. No name at all is that of
errors. -/
def namedLevel? (name : String) : Option Nat :=
  match name.map Char.toLower with
  | "" => some 1
  | "off" => some 0
  | "error" => some 1
  | "warn" => some 2
  | "info" => some 3
  | "debug" => some 4
  | "trace" => some 5
  | _ => none

def level? (cs : List Char) : Option Nat :=
  match Text.count? cs with
  | some n => if n ≤ 5 then some n else none
  | none => namedLevel? (String.ofList cs)

def fieldsOpening : List Char := ['[', '\x7b']

def fieldsClosing : List Char := ['\x7d', ']']

/-- A text split before and after the first opening of a list of fields. -/
def splitFields : List Char → List Char × Option (List Char)
  | [] => ([], none)
  | c :: cs =>
    if fieldsOpening.isPrefixOf (c :: cs) then ([], some (cs.drop 1))
    else
      let split := splitFields cs
      (c :: split.1, split.2)

/-- A text without the closings at its end, given and returned from its end. -/
def dropClosings : List Char → List Char
  | ']' :: '\x7d' :: cs => dropClosings cs
  | cs => cs

/-- The fields of a list, given the text after its opening. -/
def fieldNames (cs : List Char) : Except FilterError (List String) :=
  if (splitFields cs).2.isSome then .error .manyFieldLists
  else if fieldsClosing.isSuffixOf cs then
    let names := (Text.segments ',' (dropClosings cs.reverse).reverse).filter (· ≠ [])
    .ok (names.map String.ofList)
  else .error .openFieldList

/-- Reads a directive: a level, a target for everything, or a target with the fields and
the level after an equals sign. -/
def parse (cs : List Char) : Except FilterError Directive :=
  match Text.segments '=' cs with
  | [bare] =>
    match level? bare with
    | some level => .ok ⟨none, [], level⟩
    | none => .ok ⟨some (String.ofList bare), [], Level.trace.number⟩
  | [condition, level] => do
    let (target, fields?) := splitFields condition
    let fields ← (fields?.map fieldNames).getD (.ok [])
    match level? level with
    | some level => return ⟨some (String.ofList target), fields, level⟩
    | none => .error .badLevel
  | _ => .error .manyEquals

/-- How far the target of a directive narrows it down. -/
def targetRank (d : Directive) : Nat :=
  match d.target with
  | none => 0
  | some t => Text.byteLength t.toList + 1

/-- Whether a directive asks for more than another. Between equal demands the order of
the texts decides, the greater first. -/
def precedes (d e : Directive) : Bool :=
  if d.targetRank ≠ e.targetRank then e.targetRank < d.targetRank
  else if d.fields.length ≠ e.fields.length then e.fields.length < d.fields.length
  else if d.target ≠ e.target then e.target.getD "" < d.target.getD ""
  else e.fields < d.fields

def isFor (d : Directive) (r : Record) : Bool :=
  (d.target.getD "").toList.isPrefixOf r.source.target.toList && d.fields.all (· == "message")

end Directive

/-- A filter: directives, the most demanding first. -/
structure Filter where
  directives : List Directive
  deriving DecidableEq, Repr

namespace Filter

def insertInto (d : Directive) : List Directive → List Directive
  | [] => [d]
  | e :: es =>
    if d.target = e.target ∧ d.fields = e.fields then d :: es
    else if d.precedes e then d :: e :: es
    else e :: insertInto d es

def insert (f : Filter) (d : Directive) : Filter :=
  ⟨insertInto d f.directives⟩

def upTo (level : Level) : Filter :=
  ⟨[⟨none, [], level.number⟩]⟩

def parse (text : String) : Except FilterError Filter := do
  let directives ← (Text.segments ',' text.toList).mapM Directive.parse
  return directives.foldl insert ⟨[]⟩

def keeps (f : Filter) (r : Record) : Bool :=
  match f.directives.find? fun d => d.isFor r with
  | some d => r.level.number ≤ d.level
  | none => false

end Filter

def render (coloured : Bool) (filter : Filter) (records : List Record) : String :=
  String.join ((records.filter filter.keeps).map (Record.render coloured))

end Log
end FirmwareTests
