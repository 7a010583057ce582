import FirmwareTests.Bench.Failure
import FirmwareTests.Console.Summary
import FirmwareTests.Log.Record
import FirmwareTests.Text.Quoted

/-!
# Runs

A run has five stages: it stages the images, runs the hosts, relocates their reports,
summarises them, and deletes the staged images. Each stage takes the architectures in
order. The first failure ends the run, and nothing is cleaned up then.
-/

namespace FirmwareTests
namespace Bench

open Files Console

/-- What a run works on: the files, the terminal for the summary, the log so far, and
what the hosts have printed. -/
structure Session where
  files : FileSystem
  terminal : Terminal
  log : List Log.Record
  printed : List UInt8

/-- Actions on a session. They end at the first failure, and the session keeps what was
done to it. -/
abbrev BenchM := ExceptT Failure (StateM Session)

def note (level : Log.Level) (source : Log.Source) (text : String) : BenchM Unit :=
  modify fun s => { s with log := s.log ++ [⟨level, source, text⟩] }

theorem run_note (level : Log.Level) (source : Log.Source) (text : String) (s : Session) :
    (note level source text).run s =
      (.ok (), { s with log := s.log ++ [⟨level, source, text⟩] }) := rfl

def changeFiles (change : FileSystem → Except Failure FileSystem) : BenchM Unit := do
  match change (← get).files with
  | .ok files => modify fun s => { s with files := files }
  | .error failure => throw failure

theorem run_changeFiles (change : FileSystem → Except Failure FileSystem) (s : Session) :
    (changeFiles change).run s =
      match change s.files with
      | .ok files => (.ok (), { s with files := files })
      | .error failure => (.error failure, s) := by
  change (match change s.files with
    | .ok files => _
    | .error failure => _ : BenchM Unit).run s = _
  cases change s.files <;> rfl

def onTerminal {α : Type} (action : TerminalM α) : BenchM α := do
  let (answer, terminal) := action.run (← get).terminal
  modify fun s => { s with terminal := terminal }
  match answer with
  | .ok value => return value
  | .error fault => throw (.writeSummary fault)

def stageImage (c : Config) (a : Arch) : BenchM Unit := do
  let source := c.sourceImage a
  let target := c.stagedImage a
  note .debug .pipeline s!"staging {a.name} image `{source}` to `{target}`"
  changeFiles fun fs => (fs.copy source target).mapError (.stageImage source target)

def stageImages (c : Config) : BenchM Unit := do
  Arch.all.forM (stageImage c)
  note .info .pipeline s!"staged firmware images from `{c.imageDirectory}`"

/-- A command as the log shows it: its directory and its program. -/
def commandText (directory program : String) : String :=
  "Io(Unchecked, Io(Dir(" ++ String.ofList (Text.quoted directory.toList) ++ "), Cmd([" ++
    String.ofList (Text.quoted program.toList) ++ "])))"

def runHost (launch : Launcher) (c : Config) (a : Arch) : BenchM Unit := do
  let program := c.hostPath a
  let directory := c.runDirectory a
  note .info .pipeline s!"running {a.name} test host `{program}`"
  note .trace .testHost ("executing command: " ++ commandText directory program)
  match launch program directory (← get).files with
  | .error fault => throw (.startHost a program fault)
  | .ok run =>
    modify fun s => { s with files := run.files, printed := s.printed ++ run.printed }
    if run.status.isSuccess then
      note .debug .testHost s!"{a.name} test host exited with {run.status.message}"
    else throw (.hostFailed a program run.status)

def runHosts (launch : Launcher) (c : Config) : BenchM Unit :=
  Arch.all.forM (runHost launch c)

/-- Moves the report of an architecture out of its run directory and gives it its title.
An architecture without a report is skipped. -/
def relocateReport (c : Config) (a : Arch) : BenchM Unit := do
  let source := c.resultFile a
  let target := c.relocatedReport a
  if (← get).files.isFile source then
    note .debug .pipeline s!"moving {a.name} results `{source}` to `{target}`"
    changeFiles fun fs => (fs.move source target).mapError (.moveReport source target)
    changeFiles fun fs => (Reports.retitleFile fs target a.title).mapError .retitleReport
  else note .warning .pipeline s!"{a.name} test host did not write `{source}`, skipping"

def relocateReports (c : Config) : BenchM Unit :=
  Arch.all.forM (relocateReport c)

/-- What the log says of a report that was read from a path. -/
def mismatchRecords (path : String) (report : Reports.Report) : List Log.Record :=
  report.mismatches.map fun m => ⟨.warning, .pipeline, m.message path⟩

/-- Reads the relocated report of an architecture, if there is one. -/
def readReport (c : Config) (a : Arch) : BenchM (Option Reports.Report) := do
  let path := c.relocatedReport a
  let files := (← get).files
  if files.isFile path then
    match Reports.Report.load files path with
    | .error error => throw (.readReport error)
    | .ok report =>
      modify fun s => { s with log := s.log ++ mismatchRecords path report }
      note .debug .pipeline
        s!"read {report.testCases} test cases ({report.failedTestCases} failed) from `{path}`"
      return some report
  else
    note .debug .pipeline s!"no {a.name} report at `{path}`"
    return none

def readReports (c : Config) : List Arch → BenchM (List (Arch × Reports.Report))
  | [] => return []
  | a :: as => do
    let report? ← readReport c a
    let reports ← readReports c as
    return (report?.map (a, ·)).toList ++ reports

/-- Reads the relocated reports. Their results are merged in order, so that a suite of
both is that of the later report. -/
def aggregateReports (c : Config) : BenchM (Reports.ResultSet × List Arch) := do
  let reports ← readReports c Arch.all
  return (.mergeAll (reports.map fun r => r.2.results), reports.map Prod.fst)

def deleteImage (c : Config) (a : Arch) : BenchM Unit := do
  let path := c.stagedImage a
  note .debug .pipeline s!"deleting staged {a.name} image `{path}`"
  changeFiles fun fs => (fs.remove path).mapError (.deleteImage path)

def deleteImages (c : Config) : BenchM Unit :=
  Arch.all.forM (deleteImage c)

/-- What a complete run gives: the tally of its summary, and the architectures whose
reports were summarised. -/
structure RunSummary where
  tally : Reports.Tally
  reports : List Arch
  deriving DecidableEq, Repr

def run (launch : Launcher) (c : Config) : BenchM RunSummary := do
  stageImages c
  runHosts launch c
  relocateReports c
  let (results, reports) ← aggregateReports c
  let tally ← onTerminal (writeSummary results)
  deleteImages c
  return ⟨tally, reports⟩

end Bench
end FirmwareTests
