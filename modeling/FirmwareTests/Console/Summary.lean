import FirmwareTests.Console.Terminal
import FirmwareTests.Reports.ResultSet

/-!
# Summaries

A summary lists suites, cases and assertions in order and ends with their tally. It is
a row of segments: plain text, and the status words, which a terminal may highlight.
The tally at the end counts the status words.
-/

namespace FirmwareTests
namespace Console

open Files Reports

/-- A piece of a summary. -/
inductive Segment where
  | plain (text : String)
  | status (passed : Bool)
  deriving DecidableEq, Repr

namespace Segment

def word (passed : Bool) : String :=
  if passed then "Passed" else "Failed"

def colour (passed : Bool) : Colour :=
  if passed then .green else .red

def write : Segment → TerminalM Unit
  | plain text => Terminal.writePlain text
  | status passed => Terminal.writeColoured (word passed) (colour passed)

def statuses (segments : List Segment) : List Bool :=
  segments.filterMap fun
    | plain _ => none
    | status passed => some passed

end Segment

/-- The column that names of assertions are filled up to. -/
def statusColumn : Nat := 67

/-- The spaces between the name of an assertion and its status. -/
def padding (name : String) : String :=
  String.ofList (List.replicate (statusColumn - name.length) ' ')

/-- The lines of an assertion: its status, and what it says when it failed. -/
def assertionSegments (name : String) (outcome : Outcome) : List Segment :=
  [.plain ("    " ++ name ++ ": " ++ padding name), .status outcome.isPassed,
    .plain (match outcome with
      | .passed => "\n"
      | .failed message => "\n      " ++ message ++ "\n")]

def caseSegments (name : String) (assertions : CaseResults) : List Segment :=
  .plain ("  Test Case: " ++ name ++ "\n") ::
    assertions.entries.flatMap fun (name, outcome) => assertionSegments name outcome

def suiteSegments (name : String) (cases : SuiteResults) : List Segment :=
  .plain ("Test Suite: " ++ name ++ "\n") ::
    cases.entries.flatMap fun (name, assertions) => caseSegments name assertions

/-- The lines of a result set, without the last. -/
def bodySegments (results : ResultSet) : List Segment :=
  results.suites.entries.flatMap fun (name, cases) => suiteSegments name cases

def statusTally (statuses : List Bool) : Tally :=
  ⟨statuses.length, statuses.count false⟩

def footer (tally : Tally) : Segment :=
  .plain (toString tally.total ++ " tests run, " ++ toString tally.failures ++
    " tests failed, " ++ tally.percentText ++ "% Passing\n")

/-- Writes the summary of a result set, to the end or to the first fault. Gives the
tally of what was written. -/
def writeSummary (results : ResultSet) : TerminalM Tally := do
  let body := bodySegments results
  body.forM Segment.write
  let tally := statusTally (Segment.statuses body)
  (footer tally).write
  Terminal.flush
  return tally

end Console
end FirmwareTests
