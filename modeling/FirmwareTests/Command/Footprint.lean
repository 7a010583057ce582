import FirmwareTests.Command.Execution

/-!
# Footprints

The paths that a command line may have to look at, and the changes between two states of
the files. A process that works on real files reads the first before it is executed and
applies the second afterwards.
-/

namespace FirmwareTests
namespace Command

open Files

/-- The paths of a run: directories that files are put in, and files. -/
def runPaths (c : Bench.Config) : List String :=
  [c.workspace, c.imageDirectory] ++ Bench.Arch.all.flatMap fun a =>
    [c.runDirectory a, c.sourceImage a, c.stagedImage a, c.hostPath a, c.resultFile a,
      c.relocatedReport a]

/-- The paths that a command line may have to look at. -/
def footprint (input : ProcessInput) : List String :=
  match Invocation.parse input.arguments with
  | .error _ => []
  | .ok invocation =>
    match invocation.action with
    | .summarise paths => paths
    | .run =>
      match configOf input invocation.settings with
      | .ok config => runPaths config
      | .error _ => []

/-- The location of a path when every name on its way is a directory. -/
def plainLocation (current : Location) (path : String) : Location :=
  (components path).foldl (fun here name =>
    if name = "." then here else if name = ".." then here.dropLast else here ++ [name])
    (if isAbsolute path then [] else current)

def pathOf (location : Location) : String :=
  "/" ++ "/".intercalate location

/-- A file system with an entry at a path, and with directories on the way there. -/
def withEntry (fs : FileSystem) (path : String) (entry : Entry) : FileSystem :=
  let location := plainLocation fs.current path
  (fs.makeDirectories location.dropLast).put location entry

/-- A change of one file. -/
inductive Change where
  | write (path : String) (content : List UInt8)
  | remove (path : String)
  deriving DecidableEq, Repr

def writes (old new : FileSystem) : List Change :=
  new.entries.filterMap fun (location, entry) =>
    match entry with
    | .file content _ =>
      if old.entryAt? location = some entry then none else some (.write (pathOf location) content)
    | .directory => none

def removals (old new : FileSystem) : List Change :=
  old.entries.filterMap fun (location, entry) =>
    match entry with
    | .file _ _ => if new.entryAt? location = none then some (.remove (pathOf location)) else none
    | .directory => none

def changes (old new : FileSystem) : List Change :=
  writes old new ++ removals old new

end Command
end FirmwareTests
