import FirmwareTests.Bench.Config
import FirmwareTests.Bench.Host

/-!
# Scripted hosts

A scripted host stands in for a real one. It works in the directory that it is started
in, in this order: it leaves a mark, prints, gives up when it needs an image and none is
staged, writes a report, removes the image, and ends by a signal or with an exit code.
Steps that fail are passed over.

A file is a program if it may be executed and holds a script. If its first line names an
interpreter, that has to be a program too, and stands in for a file without a script.
-/

namespace FirmwareTests
namespace Bench

open Files

/-- What a scripted host does. -/
structure Script where
  leavesMark : Bool
  printed : List UInt8
  needsImage : Bool
  report : Option (List UInt8)
  removesImage : Bool
  signal : Option Nat
  exitCode : Nat
  deriving DecidableEq, Repr

namespace Script

def markName : String :=
  "ran"

def mark : List UInt8 :=
  Text.bytes "ran\n".toList

def noImageCode : Nat := 3

def maxSignal : Nat := 64

/-- Signals that end no process: none at all, those that are ignored, and numbers that
no signal has. -/
def isHarmless (signal : Nat) : Bool :=
  [0, 17, 18, 23, 28].contains signal || maxSignal < signal

/-- A change of the file system that is passed over when it fails. -/
def attempt (fs : FileSystem) (change : FileSystem → Except Fault FileSystem) : FileSystem :=
  (change fs).toOption.getD fs

def leaveMark (directory : String) (fs : FileSystem) : Except Fault FileSystem :=
  let path := join directory markName
  fs.write path ((fs.read path).toOption.getD [] ++ mark)

def finalStatus (s : Script) : WaitStatus :=
  match s.signal with
  | some signal => if isHarmless signal then .exited s.exitCode else .signalled signal
  | none => .exited s.exitCode

def run (s : Script) (directory : String) (fs : FileSystem) : HostRun :=
  let image := join directory stagedImageName
  let fs := if s.leavesMark then attempt fs (leaveMark directory) else fs
  if !s.needsImage || fs.isFile image then
    let fs := match s.report with
      | some report => attempt fs (·.write (join directory resultFileName) report)
      | none => fs
    let fs := if s.removesImage then attempt fs (·.remove image) else fs
    ⟨fs, s.printed, s.finalStatus⟩
  else ⟨fs, s.printed, .exited noImageCode⟩

end Script

/-- How many bytes of a file are searched for the name of an interpreter. A shorter file
is filled up with zeros. -/
def headLength : Nat := 256

/-- The blanks around the name of an interpreter. -/
def isLineBlank (b : UInt8) : Bool :=
  b == 0x20 || b == 0x09

def endsLine (b : UInt8) : Bool :=
  b == 0x0A || b == 0x00

/-- The name of an interpreter in a line, given the bytes after the mark that opens it.
When a line feed ends the line, the name must not be empty. When a zero ends it, or
nothing does, the name must end before the last byte, but may be empty. -/
def interpreterName? (line : List UInt8) : Option (List UInt8) :=
  let word := line.dropWhile isLineBlank
  let name := word.takeWhile fun b => !(isLineBlank b || endsLine b)
  match line.find? endsLine with
  | some 0x0A => if name = [] then none else some name
  | _ => if 1 < word.length ∧ name.length < word.length then some name else none

/-- The path of the interpreter that the first line of a file names after a number sign
and an exclamation mark. -/
def interpreter? (content : List UInt8) : Option String :=
  match (content ++ List.replicate headLength 0x00).take headLength with
  | 0x23 :: 0x21 :: line =>
    (interpreterName? line).map fun name => String.ofList (Text.ofBytesLenient name)
  | _ => none

/-- The most files of which each is the interpreter of the one before. -/
def maxPrograms : Nat := 6

/-- The script that runs when a program is started in a directory, if no more than the
given number of files have to be looked at. Paths of interpreters are seen from the
directory; an empty one is the directory itself. -/
def scriptOf (script? : List UInt8 → Option Script) (directory : String) (fs : FileSystem) :
    Nat → String → Except Fault Script
  | 0, _ => .error .tooManyLevels
  | n + 1, program => do
    match ← fs.lookup program with
    | .file content true =>
      match script? content, interpreter? content with
      | some script, none => return script
      | none, none => throw .notProgram
      | own?, some path =>
        let inner ← scriptOf script? directory fs n (join directory path)
        return own?.getD inner
    | _ => throw .permissionDenied

/-- Starts the script that a file holds. The directory has to exist. -/
def launchScript (script? : List UInt8 → Option Script) : Launcher :=
  fun program directory fs => do
    match ← fs.lookup directory with
    | .file _ _ => throw .notADirectory
    | .directory => return (← scriptOf script? directory fs maxPrograms program).run directory fs

end Bench
end FirmwareTests
