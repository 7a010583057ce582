import FirmwareTests.Bench.Failure
import FirmwareTests.Log.Record

/-!
# Failures of the program

What the program can fail with before, in and after a run, the exit codes, and what the
program logs of a failure: one record for the failure, and one for each cause without a
heading. A run in which assertions fail exits with zero.
-/

namespace FirmwareTests
namespace Command

open Files

inductive ExitCode where
  | success
  | usage
  | setup
  | hostFailed
  | hostNotStarted
  | fileOperation
  | report
  | output
  deriving DecidableEq, Repr

namespace ExitCode

def number : ExitCode → Nat
  | success => 0
  | usage => 2
  | setup => 96
  | hostFailed => 100
  | hostNotStarted => 101
  | fileOperation => 103
  | report => 104
  | output => 110

/-- The exit code of a run that ended early. A report that cannot be written counts as a
file operation, one that cannot be read as a fault of the report. -/
def ofFailure : Bench.Failure → ExitCode
  | .stageImage _ _ _ => fileOperation
  | .startHost _ _ _ => hostNotStarted
  | .hostFailed _ _ _ => hostFailed
  | .moveReport _ _ _ => fileOperation
  | .retitleReport (.unwritable _ _) => fileOperation
  | .retitleReport _ => report
  | .readReport _ => report
  | .writeSummary _ => output
  | .deleteImage _ _ => fileOperation

end ExitCode

/-- Why the program failed. -/
inductive Failure where
  | noCurrentDirectory (fault : Fault)
  | workspaceNotText (shown : String)
  | missingVariable (name : Bench.BuildVariable)
  | run (failure : Bench.Failure)
  | readReport (error : Reports.ReadError)
  | writeOutput (fault : Fault)
  deriving DecidableEq, Repr

namespace Failure

def exitCode : Failure → ExitCode
  | noCurrentDirectory _ => .setup
  | workspaceNotText _ => .setup
  | missingVariable _ => .setup
  | run failure => .ofFailure failure
  | readReport _ => .report
  | writeOutput _ => .output

def message : Failure → String
  | noCurrentDirectory _ => "could not determine the current directory"
  | workspaceNotText _ => "workspace directory is not valid UTF-8"
  | missingVariable _ => "configuration error"
  | run _ => "pipeline failed"
  | readReport _ => "failed to read report"
  | writeOutput _ => "failed to write output"

def headline : Failure → String
  | noCurrentDirectory _ => "could not determine the current directory"
  | workspaceNotText shown => "workspace directory `" ++ shown ++ "` is not valid UTF-8"
  | missingVariable v => v.missingMessage
  | run failure => failure.message
  | readReport error => error.message
  | writeOutput _ => "failed to write output"

/-- The causes of the failure, with the system fault behind it at the end. -/
def causes : Failure → List String
  | noCurrentDirectory fault => [fault.text]
  | workspaceNotText _ => []
  | missingVariable _ => []
  | run failure => failure.causes ++ (failure.fault?.map Fault.text).toList
  | readReport error => error.causes ++ (error.fault?.map Fault.text).toList
  | writeOutput fault => [fault.text]

def causeText (cause : String) : String :=
  "\nCaused by:\n  " ++ cause

def records (f : Failure) : List Log.Record :=
  ⟨.error, .errors, f.headline⟩ ::
    f.causes.map fun cause => ⟨.error, .noHeading, causeText cause⟩

end Failure

end Command
end FirmwareTests
