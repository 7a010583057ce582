import FirmwareTests.Bench.Config
import FirmwareTests.Bench.Host
import FirmwareTests.Reports.OnDisk

/-!
# Failures of a run

What can end a run early, what is said of it and what it was caused by. Failing
assertions never end a run.
-/

namespace FirmwareTests
namespace Bench

open Files

/-- Why a run ended early. -/
inductive Failure where
  | stageImage (source target : String) (fault : Fault)
  | startHost (arch : Arch) (program : String) (fault : Fault)
  | hostFailed (arch : Arch) (program : String) (status : WaitStatus)
  | moveReport (source target : String) (fault : Fault)
  | retitleReport (error : Reports.RetitleFileError)
  | readReport (error : Reports.ReadError)
  | writeSummary (fault : Fault)
  | deleteImage (path : String) (fault : Fault)
  deriving DecidableEq, Repr

namespace Failure

def message : Failure → String
  | stageImage source target _ =>
    "failed to stage firmware image `" ++ source ++ "` to `" ++ target ++ "`"
  | startHost arch program _ =>
    "failed to execute " ++ arch.name ++ " test host `" ++ program ++ "`"
  | hostFailed arch program status =>
    arch.name ++ " test host `" ++ program ++ "` failed with " ++ status.message
  | moveReport source target _ =>
    "failed to move test results `" ++ source ++ "` to `" ++ target ++ "`"
  | retitleReport error => error.message
  | readReport error => error.message
  | writeSummary _ => "failed to write test summary"
  | deleteImage path _ => "failed to delete staged firmware image `" ++ path ++ "`"

/-- What the failure was caused by, outermost first, without a system fault. -/
def causes : Failure → List String
  | retitleReport error => error.causes
  | readReport error => error.causes
  | _ => []

def fault? : Failure → Option Fault
  | stageImage _ _ fault => some fault
  | startHost _ _ fault => some fault
  | hostFailed _ _ _ => none
  | moveReport _ _ fault => some fault
  | retitleReport error => error.fault?
  | readReport error => error.fault?
  | writeSummary fault => some fault
  | deleteImage _ fault => some fault

end Failure
end Bench
end FirmwareTests
