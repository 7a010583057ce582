/-!
# System faults

A fault that the system reports for an operation: its kind, and the text that tells it.
-/

namespace FirmwareTests
namespace Files

/-- The kinds of system faults. -/
inductive FaultKind where
  | notFound
  | permissionDenied
  | notADirectory
  | isADirectory
  | invalidInput
  | invalidFilename
  | invalidData
  | storageFull
  | filesystemLoop
  | uncategorised
  | other
  deriving DecidableEq, Repr

structure Fault where
  kind : FaultKind
  text : String
  deriving DecidableEq, Repr

namespace Fault

def notFound : Fault :=
  ⟨.notFound, "No such file or directory (os error 2)"⟩

def permissionDenied : Fault :=
  ⟨.permissionDenied, "Permission denied (os error 13)"⟩

def notADirectory : Fault :=
  ⟨.notADirectory, "Not a directory (os error 20)"⟩

def isADirectory : Fault :=
  ⟨.isADirectory, "Is a directory (os error 21)"⟩

def nameTooLong : Fault :=
  ⟨.invalidFilename, "File name too long (os error 36)"⟩

def nulInName : Fault :=
  ⟨.invalidInput, "file name contained an unexpected NUL byte"⟩

def notRegular : Fault :=
  ⟨.invalidInput, "the source path is neither a regular file nor a symlink to a regular file"⟩

def notText : Fault :=
  ⟨.invalidData, "stream did not contain valid UTF-8"⟩

/-- The fault of a file that may be executed and is no program. -/
def notProgram : Fault :=
  ⟨.uncategorised, "Exec format error (os error 8)"⟩

/-- The fault of a chain of links, or of interpreters, that is too long. -/
def tooManyLevels : Fault :=
  ⟨.filesystemLoop, "Too many levels of symbolic links (os error 40)"⟩

def noSpace : Fault :=
  ⟨.storageFull, "No space left on device (os error 28)"⟩

/-- The fault with the operation it befell in front of its text. -/
def during (f : Fault) (operation : String) : Fault :=
  { f with text := operation ++ ": " ++ f.text }

@[simp] theorem kind_during (f : Fault) (operation : String) :
    (f.during operation).kind = f.kind := rfl

end Fault
end Files
end FirmwareTests
