import FirmwareTests.Command.Footprint

/-!
# The program

Takes a snapshot of the files that the command line may have to look at, executes it on
the snapshot, and applies the changes. Hosts are programs of their own, which a snapshot
cannot run; each is reported as one that could not be started.
-/

namespace FirmwareTests

open Command Files

/-- What the system says of an operation that it does not have. -/
def unsupported : Fault :=
  ⟨.other, "Operation not supported (os error 95)"⟩

def snapshotPath (fs : FileSystem) (path : String) : IO FileSystem := do
  try
    let content ← IO.FS.readBinFile path
    return withEntry fs path (.file content.toList false)
  catch error =>
    match error with
    | .inappropriateType .. => return withEntry fs path .directory
    | _ => return fs

def readEnvironment : IO (List (String × String)) := do
  let names := [logVariable, forceColourVariable, cliColourVariable] ++
    [Bench.BuildVariable.directory, .target, .toolChain].map (·.environment)
  let values ← names.mapM fun name => do return (← IO.getEnv name).map fun value => (name, value)
  return values.filterMap id

def applyChange : Change → IO Unit
  | .write path content => IO.FS.writeBinFile path content.toByteArray
  | .remove path => IO.FS.removeFile path

/-- Prints bytes. Fails when the output has no room for them. -/
def printBytes (content : List UInt8) : IO Unit := do
  let output ← IO.getStdout
  output.write content.toByteArray
  output.flush

end FirmwareTests

open FirmwareTests Command in
def main (arguments : List String) : IO UInt32 := do
  let current := Files.components (toString (← IO.currentDir))
  let start := { Files.FileSystem.empty.makeDirectories current with current := current }
  let input : ProcessInput := {
    arguments := arguments.map fun a => Text.bytes a.toList
    environment := ← readEnvironment
    files := start
    launcher := fun _ _ _ => .error unsupported
    outputIsFull := false }
  let files ← (footprint input).foldlM snapshotPath start
  let input := { input with files := files }
  let result ← try
      let result := execute input
      printBytes result.output
      pure result
    catch _ => pure (execute { input with outputIsFull := true })
  (changes files result.files).forM applyChange
  (← IO.getStderr).putStr (result.errors.getD "usage: unittest-runner [run] [OPTIONS]\n")
  return result.code.number.toUInt32
