import FirmwareTests.Markup.Error
import FirmwareTests.Reports.ResultSet

/-!
# Reports

What a report says: the name of its suite, the counts that its producer declared, the
counts that its elements give, and the results. Declared counts are held against the
counted ones, the number of tests first.
-/

namespace FirmwareTests
namespace Reports

structure Report where
  suiteName : Option String
  declaredTests : Option Nat
  declaredFailures : Option Nat
  testCases : Nat
  failedTestCases : Nat
  results : ResultSet
  deriving DecidableEq

/-- A declared count that is not the counted one. -/
inductive Mismatch where
  | tests (declared observed : Nat)
  | failures (declared observed : Nat)
  deriving DecidableEq, Repr

namespace Mismatch

def message (path : String) : Mismatch → String
  | tests declared observed =>
    s!"`{path}` declares {declared} tests but contains {observed} test cases"
  | failures declared observed =>
    s!"`{path}` declares {declared} failures but contains {observed} failed test cases"

def ofCounts (kind : Nat → Nat → Mismatch) (declared? : Option Nat) (observed : Nat) :
    List Mismatch :=
  match declared? with
  | some declared => if declared = observed then [] else [kind declared observed]
  | none => []

end Mismatch

def Report.mismatches (r : Report) : List Mismatch :=
  Mismatch.ofCounts .tests r.declaredTests r.testCases ++
    Mismatch.ofCounts .failures r.declaredFailures r.failedTestCases

/-- Why a document is no report. Test cases are counted from zero. -/
inductive ReportError where
  | malformed (fault : Markup.Malformed)
  | noRoot
  | unclosed (depth : Nat)
  | unnamedTestCase (index : Nat)
  | badTestCaseName (index : Nat) (error : TestNameError)
  deriving DecidableEq, Repr

namespace ReportError

def message : ReportError → String
  | malformed fault => fault.message
  | noRoot => "report does not contain a root element"
  | unclosed depth => s!"report ended with {depth} element(s) still open"
  | unnamedTestCase index => s!"test case at index {index} has no `name` attribute"
  | badTestCaseName index _ => s!"test case at index {index} has an invalid name"

def causes : ReportError → List String
  | malformed fault => fault.error.causes
  | badTestCaseName _ error => [error.message]
  | _ => []

end ReportError
end Reports
end FirmwareTests
