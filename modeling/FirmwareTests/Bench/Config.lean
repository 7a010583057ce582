import FirmwareTests.Files.FileSystem

/-!
# Configurations

The bench has two architectures, each with a run directory of its own. They are run and
reported in a fixed order. A configuration says where everything is: the workspace with
the run directories, the three names that lead to the prebuilt images, and the name of
the test host.
-/

namespace FirmwareTests
namespace Bench

open Files

/-! ### Architectures -/

inductive Arch where
  | ia32
  | x64
  deriving DecidableEq, Repr

/-- The name that an image is staged under in each run directory. -/
def stagedImageName : String :=
  "UNITTEST.fd"

/-- The name that a host writes its report under in its run directory. -/
def resultFileName : String :=
  "TestResults.xml"

namespace Arch

def all : List Arch :=
  [ia32, x64]

def index : Arch → Nat
  | ia32 => 0
  | x64 => 1

/-- The run directory, and the name in messages. -/
def name : Arch → String
  | ia32 => "IA32"
  | x64 => "X64"

def imageName : Arch → String
  | ia32 => "UNITTEST32.fd"
  | x64 => "UNITTEST64.fd"

def reportName : Arch → String
  | ia32 => "TestResults32.xml"
  | x64 => "TestResults64.xml"

def title : Arch → String
  | ia32 => "IA32-UnitTests"
  | x64 => "X64-UnitTests"

end Arch

/-! ### Configurations -/

/-- A name that leads to the prebuilt images. -/
inductive BuildVariable where
  | directory
  | target
  | toolChain
  deriving DecidableEq, Repr

namespace BuildVariable

def option : BuildVariable → String
  | directory => "build-dir-name"
  | target => "build-target"
  | toolChain => "tool-chain-tag"

def environment : BuildVariable → String
  | directory => "BUILD_DIR_NAME"
  | target => "BUILD_TARGET"
  | toolChain => "TOOL_CHAIN_TAG"

def missingMessage (v : BuildVariable) : String :=
  "`" ++ v.environment ++ "` is not set (pass `--" ++ v.option ++ "` or set the `" ++
    v.environment ++ "` environment variable)"

end BuildVariable

/-- The names that lead to the prebuilt images. -/
structure Build where
  directory : String
  target : String
  toolChain : String
  deriving DecidableEq, Repr

namespace Build

/-- A name that must be there and must not be empty. -/
def require (v : BuildVariable) (value? : Option String) : Except BuildVariable String :=
  match value? with
  | some value => if value = "" then .error v else .ok value
  | none => .error v

def ofValues (directory? target? toolChain? : Option String) : Except BuildVariable Build := do
  let directory ← require .directory directory?
  let target ← require .target target?
  let toolChain ← require .toolChain toolChain?
  return ⟨directory, target, toolChain⟩

end Build

def defaultHostName : String :=
  "SecMain.exe"

structure Config where
  workspace : String
  build : Build
  hostName : String
  deriving DecidableEq, Repr

namespace Config

def imageDirectory (c : Config) : String :=
  [ "..", "..", "Build", c.build.directory, c.build.target ++ "_" ++ c.build.toolChain, "FV" ]
    |>.foldl join c.workspace

def runDirectory (c : Config) (a : Arch) : String :=
  join c.workspace a.name

def sourceImage (c : Config) (a : Arch) : String :=
  join c.imageDirectory a.imageName

def stagedImage (c : Config) (a : Arch) : String :=
  join (c.runDirectory a) stagedImageName

def hostPath (c : Config) (a : Arch) : String :=
  join (c.runDirectory a) c.hostName

def resultFile (c : Config) (a : Arch) : String :=
  join (c.runDirectory a) resultFileName

def relocatedReport (c : Config) (a : Arch) : String :=
  join c.workspace a.reportName

end Config

end Bench
end FirmwareTests
