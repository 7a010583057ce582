import FirmwareTests.Files.FileSystem
import FirmwareTests.Reports.Builder
import FirmwareTests.Reports.Retitle

/-!
# Reports in files

Reads a report from a file, and retitles one in place. A report that cannot be retitled
leaves its file as it was.
-/

namespace FirmwareTests
namespace Reports

open Files

/-- Why a report could not be read from the file at a path. -/
inductive ReadError where
  | unreadable (path : String) (fault : Fault)
  | unparsable (path : String) (error : ReportError)
  deriving DecidableEq, Repr

namespace ReadError

def message : ReadError → String
  | unreadable path _ => "failed to read report `" ++ path ++ "`"
  | unparsable path _ => "failed to parse report `" ++ path ++ "`"

/-- What the error was caused by, outermost first, without a system fault. -/
def causes : ReadError → List String
  | unreadable _ _ => []
  | unparsable _ error => error.message :: error.causes

def fault? : ReadError → Option Fault
  | unreadable _ fault => some fault
  | unparsable _ _ => none

end ReadError

/-- Why the report in the file at a path could not be retitled. -/
inductive RetitleFileError where
  | unreadable (path : String) (fault : Fault)
  | refused (path : String) (error : RetitleError)
  | unwritable (path : String) (fault : Fault)
  deriving DecidableEq, Repr

namespace RetitleFileError

def message : RetitleFileError → String
  | unreadable path _ => "failed to read report `" ++ path ++ "`"
  | refused path _ => "failed to rename test suite in `" ++ path ++ "`"
  | unwritable path _ => "failed to write report `" ++ path ++ "`"

/-- What the error was caused by, outermost first, without a system fault. -/
def causes : RetitleFileError → List String
  | refused _ error => error.message :: error.causes
  | _ => []

def fault? : RetitleFileError → Option Fault
  | unreadable _ fault => some fault
  | refused _ _ => none
  | unwritable _ fault => some fault

end RetitleFileError

def Report.load (fs : FileSystem) (path : String) : Except ReadError Report := do
  let document ← (fs.readText path).mapError (.unreadable path)
  (Report.parse document).mapError (.unparsable path)

/-- Retitles the report in a file. The file is replaced as a whole. File systems here have
no faults of the device, so a file that was read can be replaced, and `unwritable` stands
for a fault that does not come up in them. -/
def retitleFile (fs : FileSystem) (path : String) (title : String) :
    Except RetitleFileError FileSystem := do
  let document ← (fs.readText path).mapError (.unreadable path)
  let retitled ← (retitle title.toList document).mapError (.refused path)
  (fs.putFile path (Text.bytes retitled) false).mapError (.unwritable path)

end Reports
end FirmwareTests
