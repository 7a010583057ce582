import FirmwareTests.Number.Fixed
import FirmwareTests.Reports.NameMap
import FirmwareTests.Text.Segments

/-!
# Result sets

A test is named by its suite, its case and its assertion, written with dots between
them. A dot separates wherever it stands, so a written name has exactly two. An
assertion passes, or it fails with a message.

A result set has the outcomes by suite, case and assertion, in ascending order at each
level. Inserting replaces one outcome; merging replaces whole suites. A tally says how
many assertions there are and how many of them failed. The share of those that passed is
computed in doubles, in the order written here, and is full when there are none. Counts
fit a word of 64 bits.
-/

namespace FirmwareTests
namespace Reports

/-! ### Test names -/

/-- The name of a test. -/
structure TestName where
  suite : String
  testCase : String
  assertion : String
  deriving DecidableEq, Repr

/-- A text that is no test name, and the number of its segments. -/
structure TestNameError where
  input : String
  parts : Nat
  deriving DecidableEq, Repr

def TestNameError.message (e : TestNameError) : String :=
  "test case name `" ++ e.input ++ "` has " ++ toString e.parts ++
    " dot-separated part(s), expected 3 (<suite>.<case>.<assertion>)"

namespace TestName

def parse (input : List Char) : Except TestNameError TestName :=
  match Text.segments '.' input with
  | [suite, testCase, assertion] =>
    .ok ⟨String.ofList suite, String.ofList testCase, String.ofList assertion⟩
  | parts => .error ⟨String.ofList input, parts.length⟩

def display (n : TestName) : String :=
  n.suite ++ "." ++ n.testCase ++ "." ++ n.assertion

end TestName

/-! ### Outcomes and tallies -/

/-- The outcome of an assertion. -/
inductive Outcome where
  | passed
  | failed (message : String)
  deriving DecidableEq, Repr

namespace Outcome

def isPassed : Outcome → Bool
  | passed => true
  | failed _ => false

def message : Outcome → String
  | passed => ""
  | failed m => m

end Outcome

/-- A number of assertions, and of failures among them. -/
structure Tally where
  total : Nat
  failures : Nat
  deriving DecidableEq, Repr

namespace Tally

def zero : Tally :=
  ⟨0, 0⟩

def add (t : Tally) (o : Outcome) : Tally :=
  ⟨t.total + 1, if o.isPassed then t.failures else t.failures + 1⟩

def ofOutcomes (os : List Outcome) : Tally :=
  os.foldl add zero

/-- The number that passed, if failures do not outnumber the assertions. -/
def passed? (t : Tally) : Option Nat :=
  if t.failures ≤ t.total then some (t.total - t.failures) else none

def countToFloat (n : Nat) : Float :=
  n.toUInt64.toFloat

/-- The share of passing assertions in hundredths. -/
def percent (t : Tally) : Float :=
  if t.total = 0 then 100
  else (1 - countToFloat t.failures / countToFloat t.total) * 100

def percentText (t : Tally) : String :=
  Number.fixed 2 t.percent

end Tally

/-! ### Sets -/

abbrev CaseResults := NameMap Outcome

abbrev SuiteResults := NameMap CaseResults

/-- The results by suite. -/
structure ResultSet where
  suites : NameMap SuiteResults
  deriving DecidableEq

namespace ResultSet

def empty : ResultSet :=
  ⟨∅⟩

instance : EmptyCollection ResultSet :=
  ⟨empty⟩

/-- Records an outcome in place of an earlier one of the same name. -/
def insert (r : ResultSet) (name : TestName) (outcome : Outcome) : ResultSet :=
  ⟨r.suites.update name.suite fun cases? =>
    (cases?.getD ∅).update name.testCase fun assertions? =>
      (assertions?.getD ∅).insert name.assertion outcome⟩

/-- The suites of both sets. A suite of both is taken as a whole from the second. -/
def merge (r s : ResultSet) : ResultSet :=
  ⟨r.suites.union s.suites⟩

def find? (r : ResultSet) (name : TestName) : Option Outcome := do
  let cases ← r.suites.find? name.suite
  let assertions ← cases.find? name.testCase
  assertions.find? name.assertion

def isEmpty (r : ResultSet) : Bool :=
  r.suites.isEmpty

def toList (r : ResultSet) : List (TestName × Outcome) :=
  r.suites.entries.flatMap fun (suite, cases) =>
    cases.entries.flatMap fun (testCase, assertions) =>
      assertions.entries.map fun (assertion, outcome) => (⟨suite, testCase, assertion⟩, outcome)

def tally (r : ResultSet) : Tally :=
  .ofOutcomes (r.toList.map Prod.snd)

/-- The merge of a row of sets, from the first on. -/
def mergeAll (rs : List ResultSet) : ResultSet :=
  rs.foldl merge ∅

end ResultSet

end Reports
end FirmwareTests
