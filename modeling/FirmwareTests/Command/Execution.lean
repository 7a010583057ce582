import FirmwareTests.Bench.Run
import FirmwareTests.Command.Failure
import FirmwareTests.Command.Line
import FirmwareTests.Log.Filter

/-!
# Executing a command line

A process is given its arguments, its environment, the files it finds, a way to start
test hosts, and a standard output that may have no room. It leaves an exit code, what it
printed on both outputs, and the files. What the hosts print comes first on the standard
output. Nothing is a terminal here, so colour is used only where it is asked for, by an
option or by the environment.
-/

namespace FirmwareTests
namespace Command

open Files Console

/-- What a process is given. -/
structure ProcessInput where
  arguments : List Argument
  environment : List (String × String)
  files : FileSystem
  launcher : Bench.Launcher
  outputIsFull : Bool

/-- What a process leaves. There is no error output for a command line that is not
understood: its wording is left open. -/
structure ProcessResult where
  code : ExitCode
  output : List UInt8
  errors : Option String
  files : FileSystem

def versionLine : String :=
  "unittest-runner 0.1.0\n"

def logVariable : String :=
  "UNITTEST_LOG"

/-- The environment variables that ask for colour. The first that is set decides. -/
def forceColourVariable : String :=
  "FORCE_COLOR"

def cliColourVariable : String :=
  "CLICOLOR_FORCE"

def isColourForced (environment : List (String × String)) : Bool :=
  match environment.lookup forceColourVariable, environment.lookup cliColourVariable with
  | some value, _ => value != "false" && Text.count? value.toList != some 0
  | none, some value => value != "0"
  | none, none => false

def isColoured (environment : List (String × String)) : Option ColourChoice → Bool
  | some .always => true
  | some .never => false
  | _ => isColourForced environment

def currentPath (fs : FileSystem) : String :=
  "/" ++ "/".intercalate fs.current

/-- The path of the workspace, or how it is shown when it is no text. -/
def workspacePath (fs : FileSystem) (given : Option Argument) : Except Failure String :=
  match given with
  | none => .ok (currentPath fs)
  | some a =>
    match Text.ofBytes? a with
    | some path => .ok (join (currentPath fs) (String.ofList path))
    | none =>
      let shown := String.ofList (Text.ofBytesLenient a)
      .error (.workspaceNotText (join (currentPath fs) shown))

/-- The configuration of a run. An option comes before its environment variable, and the
names of the build are looked at before the workspace. -/
def configOf (input : ProcessInput) (s : Settings) : Except Failure Bench.Config := do
  let inherited (v : Bench.BuildVariable) := input.environment.lookup v.environment
  let build ← (Bench.Build.ofValues
      (s.buildDirectory.or (inherited .directory))
      (s.buildTarget.or (inherited .target))
      (s.toolChain.or (inherited .toolChain))).mapError .missingVariable
  let workspace ← workspacePath input.files s.workspace
  return ⟨workspace, build, s.host.getD Bench.defaultHostName⟩

def startSession (input : ProcessInput) (coloured : Bool) : Bench.Session :=
  let room := if input.outputIsFull then some 0 else none
  ⟨input.files, { sink := ⟨[], room, .noSpace, none⟩, coloured := coloured }, [], []⟩

abbrev CommandM := ExceptT Failure (StateM Bench.Session)

def logAll (records : List Log.Record) : CommandM Unit :=
  modify fun s => { s with log := s.log ++ records }

def runBench (input : ProcessInput) (s : Settings) : CommandM Unit := do
  match configOf input s with
  | .error failure => throw failure
  | .ok config =>
    logAll [⟨.info, .dispatch, "running unit tests in " ++ FileSystem.shown config.workspace⟩]
    let (answer, session) := (Bench.run input.launcher config).run (← get)
    set session
    match answer with
    | .error failure => throw (.run failure)
    | .ok summary =>
      logAll [⟨.info, .dispatch, "summarized " ++ toString summary.tally.total ++
        " assertions from " ++ toString summary.reports.length ++ " report(s)"⟩]

def loadAll : List String → CommandM (List Reports.Report)
  | [] => return []
  | path :: paths => do
    match Reports.Report.load (← get).files path with
    | .error error => throw (.readReport error)
    | .ok report =>
      logAll (Bench.mismatchRecords path report)
      return report :: (← loadAll paths)

/-- Summarises the reports at the given paths, merged in their order. -/
def summarise (paths : List String) : CommandM Unit := do
  let reports ← loadAll paths
  let results := Reports.ResultSet.mergeAll (reports.map Reports.Report.results)
  let (answer, terminal) := (writeSummary results).run (← get).terminal
  modify fun s => { s with terminal := terminal }
  match answer with
  | .ok _ => return
  | .error fault => throw (.writeOutput fault)

def perform (input : ProcessInput) (invocation : Invocation) : CommandM Unit :=
  match invocation.action with
  | .run => runBench input invocation.settings
  | .summarise paths => summarise paths

/-- The filter for the log, and what is logged of a filter that is not understood. -/
def filterOf (input : ProcessInput) (verbose : Bool) : Log.Filter × List Log.Record :=
  let standard := Log.Filter.upTo (if verbose then .debug else .info)
  match input.environment.lookup logVariable with
  | none => (standard, [])
  | some "" => (standard, [])
  | some value =>
    match Log.Filter.parse value with
    | .ok filter => (filter, [])
    | .error error =>
      (standard, [⟨.warning, .output, "ignoring invalid " ++ logVariable ++ " value " ++
        FileSystem.shown value ++ ": " ++ error.message⟩])

def executeInvocation (input : ProcessInput) (invocation : Invocation) : ProcessResult :=
  let settings := invocation.settings
  let coloured := isColoured input.environment settings.colour
  let (filter, complaints) := filterOf input settings.verbose
  let (answer, session) := (perform input invocation).run (startSession input coloured)
  let (code, last) := match answer with
    | .ok () => (ExitCode.success, [])
    | .error failure => (failure.exitCode, failure.records)
  let output := if input.outputIsFull then [] else session.printed ++ session.terminal.sink.received
  ⟨code, output, some (Log.render coloured filter (complaints ++ session.log ++ last)),
    session.files⟩

def execute (input : ProcessInput) : ProcessResult :=
  match Invocation.parse input.arguments with
  | .ok invocation => executeInvocation input invocation
  | .error .version =>
    let output := if input.outputIsFull then [] else Text.bytes versionLine.toList
    ⟨.success, output, some "", input.files⟩
  | .error .usage => ⟨.usage, [], none, input.files⟩

end Command
end FirmwareTests
