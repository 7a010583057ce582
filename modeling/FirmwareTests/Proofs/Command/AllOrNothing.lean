import FirmwareTests.Proofs.Command.Showing
import FirmwareTests.Proofs.Console.Limits
import FirmwareTests.Proofs.Reports.Histories
import FirmwareTests.Proofs.Reports.Progress

/-!
# All reports or none

A process that shows reports reads all of them before it prints anything, and neither
changes a file nor starts a host. So it prints the whole summary, or it ends with the error
of the first report that does not load and prints nothing. A path that comes again is
read again, and only its last place counts.
-/

namespace FirmwareTests
namespace Command

open Bench Console Files Reports

/-- How the action of an invocation ends in a process. -/
def ending (input : ProcessInput) (invocation : Invocation) : Except Failure Unit :=
  ((perform input invocation).run
    (startSession input (isColoured input.environment invocation.settings.colour))).1

def exitCodeOf : Except Failure Unit → ExitCode
  | .ok () => .success
  | .error failure => failure.exitCode

theorem code_executeInvocation (input : ProcessInput) (invocation : Invocation) :
    (executeInvocation input invocation).code = exitCodeOf (ending input invocation) := by
  unfold executeInvocation ending
  cases hrun : (perform input invocation).run (startSession input
      (isColoured input.environment invocation.settings.colour)) with
  | mk answer session => cases answer <;> simp only [hrun, exitCodeOf]

theorem output_executeInvocation (input : ProcessInput) (invocation : Invocation)
    {answer : Except Failure Unit} {s : Session}
    (h : (perform input invocation).run (startSession input
      (isColoured input.environment invocation.settings.colour)) = (answer, s)) :
    (executeInvocation input invocation).output =
      if input.outputIsFull then [] else s.printed ++ s.terminal.sink.received := by
  unfold executeInvocation
  simp only [h]

/-! ### Reading reports -/

def Loads (files : FileSystem) : List String → List Report → Prop :=
  List.Forall₂ fun path report => Report.load files path = .ok report

section

variable {files : FileSystem} {paths front rest : List String} {path : String}
variable {reports : List Report} {error : ReadError} {s : Session}

theorem exists_loads (h : ∀ path ∈ paths, ∃ report, Report.load files path = .ok report) :
    ∃ reports, Loads files paths reports := by
  induction paths with
  | nil => exact ⟨[], .nil⟩
  | cons path paths ih =>
    obtain ⟨report, hload⟩ := h path List.mem_cons_self
    obtain ⟨reports, hloads⟩ := ih fun other hother => h other (List.mem_cons_of_mem path hother)
    exact ⟨report :: reports, .cons hload hloads⟩

theorem Loads.exists_load (h : Loads files paths reports) {path : String} (hpath : path ∈ paths) :
    ∃ report, Report.load files path = .ok report := by
  induction h with
  | nil => cases hpath
  | cons hload _ ih =>
    rcases List.mem_cons.mp hpath with rfl | hpath
    · exact ⟨_, hload⟩
    · exact ih hpath

/-- All reports load, or there is a first one that does not. -/
theorem loads_or_refused (files : FileSystem) (paths : List String) :
    (∃ reports, Loads files paths reports) ∨ ∃ front path rest reports error,
      paths = front ++ path :: rest ∧ Loads files front reports ∧
        Report.load files path = .error error := by
  rcases forall_ok_or_first_error (Report.load files) paths with
    hall | ⟨front, path, rest, error, hpaths, hfront, herror⟩
  · exact .inl (exists_loads hall)
  · obtain ⟨reports, hloads⟩ := exists_loads hfront
    exact .inr ⟨front, path, rest, reports, error, hpaths, hloads, herror⟩

/-- A report that does not load ends the reading, whatever comes after it. -/
theorem run_loadAll_refused (h : Loads files front reports) (hfiles : s.files = files)
    (herror : Report.load files path = .error error) (rest : List String) :
    ∃ log, (loadAll (front ++ path :: rest)).run s =
      (.error (.readReport error), { s with log := log }) := by
  induction h generalizing s with
  | nil =>
    rw [← hfiles] at herror
    refine ⟨s.log, ?_⟩
    rw [List.nil_append, loadAll]
    refine (run_bind_ok (run_get s)).trans ?_
    rw [herror]
    rfl
  | @cons first report front reports hload _ ih =>
    rw [← hfiles] at hload
    obtain ⟨log, hrest⟩ := @ih { s with log := s.log ++ mismatchRecords first report } hfiles
    rw [List.cons_append, run_loadAll_cons hload]
    exact ⟨log, run_bind_error hrest⟩

theorem run_summarise_refused (h : Loads files front reports) (hfiles : s.files = files)
    (herror : Report.load files path = .error error) (rest : List String) :
    ∃ log, (summarise (front ++ path :: rest)).run s =
      (.error (.readReport error), { s with log := log }) := by
  obtain ⟨log, hload⟩ := run_loadAll_refused h hfiles herror rest
  exact ⟨log, run_bind_error hload⟩

theorem run_summarise_loaded (h : Loads files paths reports) (hfiles : s.files = files) :
    ∃ answer log terminal, (summarise paths).run s =
      (answer, { s with log := log, terminal := terminal }) := by
  obtain ⟨log, hload⟩ := run_loadAll h hfiles
  rw [summarise, run_bind_ok hload, run_bind_ok (run_get _)]
  cases hwrite : (writeSummary (.mergeAll (reports.map Report.results))).run s.terminal with
  | mk answer terminal =>
    cases answer with
    | ok tally => exact ⟨.ok (), log, terminal, rfl⟩
    | error fault => exact ⟨.error (.writeOutput fault), log, terminal, rfl⟩

end

theorem files_summarise (paths : List String) (s : Session) :
    ((summarise paths).run s).2.files = s.files := by
  rcases loads_or_refused s.files paths with
    ⟨reports, hloads⟩ | ⟨front, path, rest, reports, error, rfl, hloads, herror⟩
  · obtain ⟨answer, log, terminal, hrun⟩ := run_summarise_loaded hloads rfl
    rw [hrun]
  · obtain ⟨log, hrun⟩ := run_summarise_refused hloads rfl herror rest
    rw [hrun]

/-! ### Paths that come again -/

/-- Paths of which some that come again later are left out. -/
inductive LeavesOut : List String → List String → Prop
  | nil : LeavesOut [] []
  | keep {path : String} {paths kept : List String} (h : LeavesOut paths kept) :
      LeavesOut (path :: paths) (path :: kept)
  | drop {path : String} {paths kept : List String} (h : LeavesOut paths kept)
      (hlater : path ∈ paths) : LeavesOut (path :: paths) kept

namespace LeavesOut

variable {paths kept : List String}

theorem mem_iff (h : LeavesOut paths kept) (path : String) : path ∈ kept ↔ path ∈ paths := by
  induction h with
  | nil => rfl
  | keep _ ih => rw [List.mem_cons, List.mem_cons, ih]
  | @drop other paths kept _ hlater ih =>
    rw [ih, List.mem_cons]
    constructor
    · exact .inr
    · rintro (rfl | hmem)
      · exact hlater
      · exact hmem

/-- What is left out leaves no trace in a merge, for it is merged again later. -/
theorem mergeAll_map (h : LeavesOut paths kept) (f : String → ResultSet)
    (earlier : List ResultSet) :
    ResultSet.mergeAll (earlier ++ paths.map f) = .mergeAll (earlier ++ kept.map f) := by
  induction h generalizing earlier with
  | nil => rfl
  | @keep path paths kept _ ih =>
    have hrest := ih (earlier ++ [f path])
    rw [List.append_assoc, List.append_assoc] at hrest
    exact hrest
  | @drop path paths kept _ hlater ih =>
    rw [List.map_cons, ResultSet.mergeAll_append_cons, ih]
    intro suite hhas
    exact ⟨f path, List.mem_map_of_mem hlater, hhas⟩

end LeavesOut

/-- The results at a path, and none where no report loads. -/
def resultsAt (files : FileSystem) (path : String) : ResultSet :=
  match Report.load files path with
  | .ok report => report.results
  | .error _ => ∅

theorem Loads.results_eq {files : FileSystem} {paths : List String} {reports : List Report}
    (h : Loads files paths reports) :
    reports.map Report.results = paths.map (resultsAt files) := by
  induction h with
  | nil => rfl
  | @cons path report paths reports hload _ ih =>
    rw [List.map_cons, List.map_cons, ih, resultsAt, hload]

/-! ### Processes -/

/-- What a process prints and how it ends when it shows the reports at paths. -/
structure ShowsAllOrNone (input : ProcessInput) (settings : Settings) (paths : List String) :
    Prop where
  files : (executeInvocation input ⟨settings, .summarise paths⟩).files = input.files
  /-- No host is started. -/
  launcher : ∀ launch, executeInvocation { input with launcher := launch }
    ⟨settings, .summarise paths⟩ = executeInvocation input ⟨settings, .summarise paths⟩
  /-- The summary is of a set that has each suite as the last report with it has it. -/
  loaded : ∀ reports, Loads input.files paths reports → input.outputIsFull = false →
    let shown := executeInvocation input ⟨settings, .summarise paths⟩
    shown.code.number = 0 ∧ ending input ⟨settings, .summarise paths⟩ = .ok () ∧
      ∃ merged, ResultSet.TakesLast (reports.map Report.results) merged ∧
        shown.output = ((writeSummary merged).run
          (.unbounded (isColoured input.environment settings.colour))).2.sink.received
  refused : ∀ front path rest reports error, paths = front ++ path :: rest →
    Loads input.files front reports → Report.load input.files path = .error error →
      let shown := executeInvocation input ⟨settings, .summarise paths⟩
      shown.code.number = 104 ∧ shown.output = [] ∧
        ending input ⟨settings, .summarise paths⟩ = .error (.readReport error)
  /-- One of the two is the case. -/
  total : (∃ reports, Loads input.files paths reports) ∨
    ∃ front path rest reports error, paths = front ++ path :: rest ∧
      Loads input.files front reports ∧ Report.load input.files path = .error error
  repeated : ∀ reports kept, Loads input.files paths reports → input.outputIsFull = false →
    LeavesOut paths kept →
      (executeInvocation input ⟨settings, .summarise kept⟩).code.number = 0 ∧
        (executeInvocation input ⟨settings, .summarise kept⟩).output =
          (executeInvocation input ⟨settings, .summarise paths⟩).output

theorem executeInvocation_loaded {input : ProcessInput} {paths : List String}
    {reports : List Report} (settings : Settings) (h : Loads input.files paths reports)
    (hwritable : input.outputIsFull = false) :
    ending input ⟨settings, .summarise paths⟩ = .ok () ∧
      (executeInvocation input ⟨settings, .summarise paths⟩).output =
        summaryBytes (isColoured input.environment settings.colour)
          (.mergeAll (paths.map (resultsAt input.files))) := by
  have hterminal :=
    unlimited_startSession (isColoured input.environment settings.colour) hwritable
  obtain ⟨s', hrun, -, -⟩ := run_summarise h rfl rfl hterminal
  obtain ⟨-, houtput⟩ := executeInvocation_summarise settings h rfl hwritable
  rw [← h.results_eq]
  exact ⟨congrArg Prod.fst hrun, houtput⟩

theorem executeInvocation_refused {input : ProcessInput} {front : List String}
    {reports : List Report} {path : String} {error : ReadError} (settings : Settings)
    (h : Loads input.files front reports) (herror : Report.load input.files path = .error error)
    (rest : List String) :
    (executeInvocation input ⟨settings, .summarise (front ++ path :: rest)⟩).output = [] ∧
      ending input ⟨settings, .summarise (front ++ path :: rest)⟩ =
        .error (.readReport error) := by
  obtain ⟨log, hrun⟩ := run_summarise_refused (s := startSession input
    (isColoured input.environment settings.colour)) h rfl herror rest
  constructor
  · rw [output_executeInvocation input ⟨settings, .summarise _⟩ hrun]
    exact ite_self []
  · exact congrArg Prod.fst hrun

/-- A process that shows reports changes no file, starts no host, and prints the summary of
all reports, or nothing when one does not load; then it ends with the error of the first. -/
theorem showsAllOrNone (input : ProcessInput) (settings : Settings) (paths : List String) :
    ShowsAllOrNone input settings paths where
  files := files_summarise paths _
  launcher launch := rfl
  loaded reports h hwritable := by
    obtain ⟨hending, houtput⟩ := executeInvocation_loaded settings h hwritable
    refine ⟨?_, hending, _, ResultSet.takesLast_mergeAll _, ?_⟩
    · rw [code_executeInvocation, hending]
      rfl
    · rw [houtput, run_writeSummary_unbounded, h.results_eq]
      rfl
  refused front path rest reports error hpaths h herror := by
    subst hpaths
    obtain ⟨houtput, hending⟩ := executeInvocation_refused settings h herror rest
    refine ⟨?_, houtput, hending⟩
    rw [code_executeInvocation, hending]
    rfl
  total := loads_or_refused input.files paths
  repeated reports kept h hwritable hkept := by
    obtain ⟨-, houtput⟩ := executeInvocation_loaded settings h hwritable
    obtain ⟨reports', h'⟩ := exists_loads fun path hpath =>
      h.exists_load ((hkept.mem_iff path).mp hpath)
    obtain ⟨hending', houtput'⟩ := executeInvocation_loaded settings h' hwritable
    have hmerge := hkept.mergeAll_map (resultsAt input.files) []
    constructor
    · rw [code_executeInvocation, hending']
      rfl
    · rw [houtput, houtput']
      exact congrArg _ hmerge.symm

/-- Two reports in files. Both have the suite `s`, and the second has another one. -/
def shownFiles : FileSystem :=
  let report (cases : String) : List UInt8 := Text.bytes ("<r>" ++ cases ++ "</r>").toList
  let second := "<testcase name='s.c.b'/><testcase name='t.c.b'><failure>m</failure></testcase>"
  ⟨[(["a"], .file (report "<testcase name='s.c.a'/>") false), (["b"], .file (report second) false)],
    []⟩

/-- The results of the two reports in the files. -/
def firstShown : ResultSet :=
  .insert ∅ ⟨"s", "c", "a"⟩ .passed

def secondShown : ResultSet :=
  (ResultSet.insert ∅ ⟨"s", "c", "b"⟩ .passed).insert ⟨"t", "c", "b"⟩ (.failed "m")

theorem load_shownFiles : ∃ first second, Report.load shownFiles "a" = .ok first ∧
    Report.load shownFiles "b" = .ok second ∧
      first.results = firstShown ∧ second.results = secondShown := by
  have hfirst : (Report.load shownFiles "a").toOption.map Report.results = some firstShown := by
    decide +kernel
  have hsecond : (Report.load shownFiles "b").toOption.map Report.results = some secondShown := by
    decide +kernel
  obtain ⟨first, hload, hresults⟩ := Option.map_eq_some_iff.mp hfirst
  obtain ⟨second, hload', hresults'⟩ := Option.map_eq_some_iff.mp hsecond
  exact ⟨first, second, toOption_eq_some_iff.mp hload, toOption_eq_some_iff.mp hload', hresults,
    hresults'⟩

def shownInput : ProcessInput :=
  ⟨[], [], shownFiles, fun _ _ _ => .error .notFound, false⟩

def shownSegments : List Segment :=
  [.plain "Test Suite: s\n", .plain "  Test Case: c\n", .plain ("    a: " ++ padding "a"),
    .status true, .plain "\n", .plain "Test Suite: t\n", .plain "  Test Case: c\n",
    .plain ("    b: " ++ padding "b"), .status false, .plain "\n      m\n",
    .plain "2 tests run, 1 tests failed, 50.00% Passing\n"]

/-- A suite is shown as the last report has it, and its report once when it comes again. None
is shown when a third one is missing. -/
theorem showsAllOrNone_shownFiles :
    let shown (paths : List String) := executeInvocation shownInput ⟨.none, .summarise paths⟩
    (shown ["b", "a"]).code.number = 0 ∧
      (shown ["b", "a"]).output = shownSegments.flatMap (Segment.bytes false) ∧
        (shown ["a", "b", "a"]).output = (shown ["b", "a"]).output ∧
          (shown ["a", "b", "a", "c"]).code.number = 104 ∧
            (shown ["a", "b", "a", "c"]).output = [] := by
  intro shown
  obtain ⟨first, second, hfirst, hsecond, hresults, hresults'⟩ := load_shownFiles
  have hloads : Loads shownInput.files ["b", "a"] [second, first] :=
    .cons hsecond (.cons hfirst .nil)
  have hagain : Loads shownInput.files ["a", "b", "a"] [first, second, first] :=
    .cons hfirst hloads
  have hkept : LeavesOut ["a", "b", "a"] ["b", "a"] := .drop (.keep (.keep .nil)) (by simp)
  have hmissing : (Report.load shownFiles "c").toOption = none := by decide +kernel
  cases herror : Report.load shownFiles "c" with
  | ok report =>
    rw [herror] at hmissing
    cases hmissing
  | error error =>
    obtain ⟨hcode, -, merged, hmerged, houtput⟩ :=
      (showsAllOrNone shownInput .none _).loaded _ hloads rfl
    have hrepeated := (showsAllOrNone shownInput .none _).repeated _ _ hagain rfl hkept
    obtain ⟨hrefused, hnothing, -⟩ :=
      (showsAllOrNone shownInput .none _).refused _ "c" [] _ error rfl hagain herror
    refine ⟨hcode, ?_, hrepeated.2.symm, hrefused, hnothing⟩
    rw [List.map_cons, List.map_singleton, hresults, hresults'] at hmerged
    have hsegments : bodySegments (.mergeAll [secondShown, firstShown]) ++
        [footer (ResultSet.mergeAll [secondShown, firstShown]).tally] = shownSegments := by
      decide +kernel
    have hshown : summaryBytes false (.mergeAll [secondShown, firstShown]) =
        shownSegments.flatMap (Segment.bytes false) :=
      congrArg (List.flatMap (Segment.bytes false)) hsegments
    refine houtput.trans ?_
    rw [hmerged.unique (ResultSet.takesLast_mergeAll _), run_writeSummary_unbounded]
    exact hshown

end Command
end FirmwareTests
