import FirmwareTests.Markup.Attribute
import FirmwareTests.Markup.Entity
import FirmwareTests.Markup.Scan
import FirmwareTests.Reports.Report
import FirmwareTests.Text.Segments

/-!
# Building a report from tokens

The first element is the root, and its attributes give the name and the declared
counts. Test cases are the children of the root that are called `testcase`; failures
are the children of a test case that are called `failure`. The text of a failure is
what stands directly inside it, in text and in CDATA sections. A test case is recorded
when it closes, and its last failure counts.
-/

namespace FirmwareTests
namespace Reports

open Markup

/-- The value of an attribute, with its entities replaced. The tag ends at the given
position, which is where every fault in it is reported. -/
def attributeValue (tag : Tag) (key : String) (position : Nat) :
    Except Malformed (Option (List Char)) :=
  match tag.attributes.find? key.toList with
  | .error fault => .error ⟨position, .badAttribute fault⟩
  | .ok none => .ok none
  | .ok (some raw) =>
    match unescape raw with
    | .error fault => .error ⟨position, .badEntity fault⟩
    | .ok value => .ok (some value)

/-- A declared count is a numeral that may stand between blanks; any other value
declares nothing. -/
def declaredCount? (value? : Option (List Char)) : Option Nat :=
  value?.bind fun value => Text.count? (Text.trim value)

/-- A test case that is still open, and the text of its last failure so far. -/
structure Pending where
  name : TestName
  failure : Option (List Char)
  deriving DecidableEq, Repr

def Pending.outcome (p : Pending) : Outcome :=
  match p.failure with
  | none => .passed
  | some text => .failed (String.ofList (Text.trim text))

/-- What has been built so far. The depth counts the open elements. -/
structure Builder where
  depth : Nat
  report : Option Report
  pending : Option Pending
  inFailure : Bool
  deriving DecidableEq

namespace Builder

def initial : Builder :=
  ⟨0, none, none, false⟩

def rootReport (tag : Tag) (position : Nat) : Except Malformed Report := do
  let tests ← attributeValue tag "tests" position
  let failures ← attributeValue tag "failures" position
  let name ← attributeValue tag "name" position
  return {
    suiteName := name.map String.ofList
    declaredTests := declaredCount? tests
    declaredFailures := declaredCount? failures
    testCases := 0
    failedTestCases := 0
    results := ∅ }

def testCaseName (tag : Tag) (index position : Nat) : Except ReportError TestName := do
  match ← (attributeValue tag "name" position).mapError .malformed with
  | none => .error (.unnamedTestCase index)
  | some name => (TestName.parse name).mapError (.badTestCaseName index)

/-- Opens an element. The depth counts it already. -/
def openElement (b : Builder) (tag : Tag) (isEmpty : Bool) (position : Nat) :
    Except ReportError Builder := do
  match b.depth, b.report, b.pending with
  | 1, none, _ =>
    let report ← (rootReport tag position).mapError .malformed
    return { b with report := some report }
  | 2, some report, _ =>
    if tag.name = "testcase".toList then
      let name ← testCaseName tag report.testCases position
      return { b with
        report := some { report with testCases := report.testCases + 1 }
        pending := some ⟨name, none⟩ }
    else return b
  | 3, _, some pending =>
    if tag.name = "failure".toList then
      return { b with
        pending := some { pending with failure := some [] }
        inFailure := !isEmpty }
    else return b
  | _, _, _ => return b

def record (report : Report) (pending : Pending) : Report :=
  let outcome := pending.outcome
  { report with
    failedTestCases :=
      if outcome.isPassed then report.failedTestCases else report.failedTestCases + 1
    results := report.results.insert pending.name outcome }

/-- Closes an element. The depth counts it still. -/
def closeElement (b : Builder) : Builder :=
  match b.depth, b.report, b.pending with
  | 3, _, _ => { b with inFailure := false }
  | 2, some report, some pending =>
    { b with report := some (record report pending), pending := none }
  | _, _, _ => b

/-- The test case whose failure a text belongs to, and the text of the failure so far. -/
def openFailure? (b : Builder) : Option (Pending × List Char) :=
  if b.inFailure ∧ b.depth = 3 then
    b.pending.bind fun pending => pending.failure.map fun text => (pending, text)
  else none

def appendFailure (b : Builder) (pending : Pending) (text : List Char) : Builder :=
  { b with pending := some { pending with failure := some text } }

def step (b : Builder) (t : Located) : Except ReportError Builder :=
  match t.token with
  | .start tag => openElement { b with depth := b.depth + 1 } tag false t.position
  | .empty tag => do
    let opened ← openElement { b with depth := b.depth + 1 } tag true t.position
    return { opened.closeElement with depth := b.depth }
  | .close _ => .ok { b.closeElement with depth := b.depth - 1 }
  | .text raw =>
    match b.openFailure? with
    | none => .ok b
    | some (pending, text) =>
      match unescape raw with
      | .error fault => .error (.malformed ⟨t.position, .badEntity fault⟩)
      | .ok more => .ok (b.appendFailure pending (text ++ more))
  | .cdata raw =>
    match b.openFailure? with
    | none => .ok b
    | some (pending, text) => .ok (b.appendFailure pending (text ++ raw))
  | _ => .ok b

def finish (b : Builder) (ending : Ending) : Except ReportError Report :=
  match ending with
  | .broken fault => .error (.malformed fault)
  | .complete =>
    if b.depth = 0 then
      match b.report with
      | some report => .ok report
      | none => .error .noRoot
    else .error (.unclosed b.depth)

end Builder

def Report.ofReading (reading : Reading) : Except ReportError Report := do
  let built ← reading.tokens.foldlM Builder.step .initial
  built.finish reading.ending

def Report.parse (document : List Char) : Except ReportError Report :=
  Report.ofReading (Markup.read document)

end Reports
end FirmwareTests
