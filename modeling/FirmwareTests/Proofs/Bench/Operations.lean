import FirmwareTests.Bench.Run
import FirmwareTests.Proofs.Console.Summaries
import FirmwareTests.Proofs.Files.Changes

/-!
# The operations of a run

A run is a fixed row of operations. It performs them in order, up to the first that fails:
what it gives, and what shows of its session afterwards, is what the operations leave. A
report is moved and retitled only where a host left one, and read only where one was
moved to or was there before.
-/

namespace FirmwareTests
namespace Bench

open Files Console

/-- An operation of a run. -/
inductive Operation where
  | stage (a : Arch)
  | start (a : Arch)
  | move (a : Arch)
  | retitle (a : Arch)
  | read (a : Arch)
  | summarise
  | delete (a : Arch)
  deriving DecidableEq, Repr

/-- What the operations of a run work on: the files, the terminal, what the hosts have
printed, the architecture whose report was moved by the last move, and the reports that
have been read. -/
structure RunState where
  files : FileSystem
  terminal : Terminal
  printed : List UInt8
  moved : Option Arch
  reports : List (Arch × Reports.Report)

namespace RunState

def initial (s : Session) : RunState :=
  ⟨s.files, s.terminal, s.printed, none, []⟩

def merged (r : RunState) : Reports.ResultSet :=
  .mergeAll (r.reports.map fun report => report.2.results)

def change (r : RunState) (changed : Except Failure FileSystem) : Option Failure × RunState :=
  match changed with
  | .ok files => (none, { r with files := files })
  | .error failure => (some failure, r)

/-- What shows of a state in a session. -/
structure Shows (r : RunState) (s : Session) : Prop where
  files : s.files = r.files
  terminal : s.terminal = r.terminal
  printed : s.printed = r.printed

end RunState

/-- Performs an operation. A failure comes with what was done up to it. -/
def Operation.perform (launch : Launcher) (c : Config) (r : RunState) :
    Operation → Option Failure × RunState
  | stage a =>
    let source := c.sourceImage a
    let target := c.stagedImage a
    r.change ((r.files.copy source target).mapError (.stageImage source target))
  | start a =>
    let program := c.hostPath a
    match launch program (c.runDirectory a) r.files with
    | .error fault => (some (.startHost a program fault), r)
    | .ok run =>
      (if run.status.isSuccess then none else some (.hostFailed a program run.status),
        { r with files := run.files, printed := r.printed ++ run.printed })
  | move a =>
    let source := c.resultFile a
    let target := c.relocatedReport a
    if r.files.isFile source then
      { r with moved := some a }.change
        ((r.files.move source target).mapError (.moveReport source target))
    else (none, { r with moved := none })
  | retitle a =>
    if r.moved = some a then
      r.change ((Reports.retitleFile r.files (c.relocatedReport a) a.title).mapError .retitleReport)
    else (none, r)
  | read a =>
    let path := c.relocatedReport a
    if r.files.isFile path then
      match Reports.Report.load r.files path with
      | .error error => (some (.readReport error), r)
      | .ok report => (none, { r with reports := r.reports ++ [(a, report)] })
    else (none, r)
  | summarise =>
    let (answer, terminal) := (writeSummary r.merged).run r.terminal
    (match answer with
      | .ok _ => none
      | .error fault => some (.writeSummary fault),
      { r with terminal := terminal })
  | delete a =>
    let path := c.stagedImage a
    r.change ((r.files.remove path).mapError (.deleteImage path))

/-- Performs operations up to the first that fails. -/
def performAll (launch : Launcher) (c : Config) :
    List Operation → RunState → Option Failure × RunState
  | [], r => (none, r)
  | o :: os, r =>
    match o.perform launch c r with
    | (none, next) => performAll launch c os next
    | (some failure, next) => (some failure, next)

def Operation.sequence : List Operation :=
  [.stage .ia32, .stage .x64, .start .ia32, .start .x64, .move .ia32, .retitle .ia32,
    .move .x64, .retitle .x64, .read .ia32, .read .x64, .summarise, .delete .ia32, .delete .x64]

theorem Operation.sequence_eq : sequence =
    [stage .ia32, stage .x64] ++ ([start .ia32, start .x64] ++
      ([move .ia32, retitle .ia32, move .x64, retitle .x64] ++ ([read .ia32, read .x64] ++
        ([summarise] ++ ([delete .ia32, delete .x64] ++ []))))) := rfl

section

variable {launch : Launcher} {c : Config} {os us : List Operation} {r next : RunState}

theorem performAll_append : performAll launch c (os ++ us) r =
    match performAll launch c os r with
    | (none, next) => performAll launch c us next
    | (some failure, next) => (some failure, next) := by
  induction os generalizing r with
  | nil => rfl
  | cons o os ih =>
    rw [List.cons_append, performAll, performAll]
    cases hperform : o.perform launch c r with
    | mk failure? next =>
      cases failure? with
      | none => exact ih
      | some failure => rfl

theorem performAll_append_eq_none : performAll launch c (os ++ us) r = (none, next) ↔
    ∃ mid, performAll launch c os r = (none, mid) ∧
      performAll launch c us mid = (none, next) := by
  rw [performAll_append]
  cases hperform : performAll launch c os r with
  | mk failure? mid => cases failure? <;> simp

theorem performAll_append_eq_some {failure : Failure} :
    performAll launch c (os ++ us) r = (some failure, next) ↔
      performAll launch c os r = (some failure, next) ∨ ∃ mid,
        performAll launch c os r = (none, mid) ∧
          performAll launch c us mid = (some failure, next) := by
  rw [performAll_append]
  cases hperform : performAll launch c os r with
  | mk failure? mid => cases failure? <;> simp

@[simp] theorem performAll_singleton (o : Operation) :
    performAll launch c [o] r = o.perform launch c r := by
  rw [performAll]
  cases hperform : o.perform launch c r with
  | mk failure? next => cases failure? <;> rfl

end

/-! ### Single operations -/

section

variable {launch : Launcher} {c : Config} {r : RunState} {a : Arch}

theorem perform_start_of_ok {run : HostRun}
    (h : launch (c.hostPath a) (c.runDirectory a) r.files = .ok run) :
    (Operation.start a).perform launch c r =
      (if run.status.isSuccess then none else some (.hostFailed a (c.hostPath a) run.status),
        { r with files := run.files, printed := r.printed ++ run.printed }) := by
  simp only [Operation.perform, h]

theorem perform_start_of_error {fault : Fault}
    (h : launch (c.hostPath a) (c.runDirectory a) r.files = .error fault) :
    (Operation.start a).perform launch c r = (some (.startHost a (c.hostPath a) fault), r) := by
  simp only [Operation.perform, h]

theorem perform_move_of_isFile (h : r.files.isFile (c.resultFile a) = true) :
    (Operation.move a).perform launch c r = { r with moved := some a }.change
      ((r.files.move (c.resultFile a) (c.relocatedReport a)).mapError
        (.moveReport (c.resultFile a) (c.relocatedReport a))) := by
  simp only [Operation.perform, h, if_true]

theorem perform_move_of_not_isFile (h : ¬ r.files.isFile (c.resultFile a) = true) :
    (Operation.move a).perform launch c r = (none, { r with moved := none }) := by
  simp only [Operation.perform, if_neg h]

theorem performAll_relocate_of_not_isFile
    (h : ¬ r.files.isFile (c.resultFile a) = true) :
    performAll launch c [.move a, .retitle a] r = (none, { r with moved := none }) := by
  rw [performAll, perform_move_of_not_isFile h]
  rfl

theorem perform_retitle_of_not_moved (h : r.moved ≠ some a) :
    (Operation.retitle a).perform launch c r = (none, r) := by
  simp only [Operation.perform, if_neg h]

theorem perform_retitle_of_moved (h : r.moved = some a) :
    (Operation.retitle a).perform launch c r =
      r.change ((Reports.retitleFile r.files (c.relocatedReport a) a.title).mapError
        .retitleReport) := by
  simp only [Operation.perform, h, if_true]

theorem perform_read_of_not_isFile (h : ¬ r.files.isFile (c.relocatedReport a) = true) :
    (Operation.read a).perform launch c r = (none, r) := by
  simp only [Operation.perform, if_neg h]

theorem perform_read_of_ok {report : Reports.Report}
    (h : r.files.isFile (c.relocatedReport a) = true)
    (hload : Reports.Report.load r.files (c.relocatedReport a) = .ok report) :
    (Operation.read a).perform launch c r =
      (none, { r with reports := r.reports ++ [(a, report)] }) := by
  simp only [Operation.perform, h, hload, if_true]

theorem perform_read_of_error {error : Reports.ReadError}
    (h : r.files.isFile (c.relocatedReport a) = true)
    (hload : Reports.Report.load r.files (c.relocatedReport a) = .error error) :
    (Operation.read a).perform launch c r = (some (.readReport error), r) := by
  simp only [Operation.perform, h, hload, if_true]

theorem perform_summarise_of_ok {tally : Reports.Tally} {terminal : Terminal}
    (h : (writeSummary r.merged).run r.terminal = (.ok tally, terminal)) :
    Operation.summarise.perform launch c r = (none, { r with terminal := terminal }) := by
  simp only [Operation.perform, h]

theorem perform_summarise_of_error {fault : Fault} {terminal : Terminal}
    (h : (writeSummary r.merged).run r.terminal = (.error fault, terminal)) :
    Operation.summarise.perform launch c r =
      (some (.writeSummary fault), { r with terminal := terminal }) := by
  simp only [Operation.perform, h]

end

/-! ### Actions and operations -/

section

variable {α β : Type} {launch : Launcher} {c : Config} {s s' : Session} {r : RunState}
variable {x : BenchM α} {f : α → BenchM β}

/-- An action does what operations do from a state on, and gives a value that belongs to
the state after them. -/
structure Performs (launch : Launcher) (c : Config) (x : BenchM α) (os : List Operation)
    (r : RunState) (s : Session) (value : RunState → α → Prop) : Prop where
  ok : ∀ next, performAll launch c os r = (none, next) →
    ∃ a s', x.run s = (.ok a, s') ∧ next.Shows s' ∧ value next a
  error : ∀ failure next, performAll launch c os r = (some failure, next) →
    ∃ s', x.run s = (.error failure, s') ∧ next.Shows s'

section

variable {os : List Operation} {value : RunState → α → Prop}

theorem performs_ok {a : α} {next : RunState} (hrun : x.run s = (.ok a, s'))
    (hperform : performAll launch c os r = (none, next)) (hshows : next.Shows s')
    (hvalue : value next a) : Performs launch c x os r s value := by
  constructor
  · intro next' h
    rw [hperform] at h
    cases h
    exact ⟨a, s', hrun, hshows, hvalue⟩
  · intro failure next' h
    rw [hperform] at h
    cases h

theorem performs_error {next : RunState} (failure : Failure) (hrun : x.run s = (.error failure, s'))
    (hperform : performAll launch c os r = (some failure, next)) (hshows : next.Shows s') :
    Performs launch c x os r s value := by
  constructor
  · intro next' h
    rw [hperform] at h
    cases h
  · intro failure' next' h
    rw [hperform] at h
    cases h
    exact ⟨s', hrun, hshows⟩

theorem Performs.of_run_ok {a : α} (h : Performs launch c x os r s value)
    (hrun : x.run s = (.ok a, s')) : ∃ next,
      performAll launch c os r = (none, next) ∧ next.Shows s' ∧ value next a := by
  cases hperform : performAll launch c os r with
  | mk failure? next =>
    cases failure? with
    | none =>
      obtain ⟨a', s'', hrun', hshows, hvalue⟩ := h.ok next hperform
      rw [hrun] at hrun'
      cases hrun'
      exact ⟨next, rfl, hshows, hvalue⟩
    | some failure =>
      obtain ⟨s'', hrun', -⟩ := h.error failure next hperform
      rw [hrun] at hrun'
      cases hrun'

theorem Performs.of_run_error {failure : Failure} (h : Performs launch c x os r s value)
    (hrun : x.run s = (.error failure, s')) : ∃ next,
      performAll launch c os r = (some failure, next) ∧ next.Shows s' := by
  cases hperform : performAll launch c os r with
  | mk failure? next =>
    cases failure? with
    | none =>
      obtain ⟨a, s'', hrun', -⟩ := h.ok next hperform
      rw [hrun] at hrun'
      cases hrun'
    | some failure' =>
      obtain ⟨s'', hrun', hshows⟩ := h.error failure' next hperform
      rw [hrun] at hrun'
      cases hrun'
      exact ⟨next, rfl, hshows⟩

theorem Performs.mono {value' : RunState → α → Prop} (h : Performs launch c x os r s value)
    (hvalue : ∀ next a, value next a → value' next a) : Performs launch c x os r s value' := by
  refine ⟨?_, h.error⟩
  intro next hperform
  obtain ⟨a, s', hrun, hshows, ha⟩ := h.ok next hperform
  exact ⟨a, s', hrun, hshows, hvalue next a ha⟩

theorem Performs.bind {value' : RunState → β → Prop} (hx : Performs launch c x os r s value)
    (us : List Operation)
    (hf : ∀ a s' r', r'.Shows s' → value r' a → Performs launch c (f a) us r' s' value') :
    Performs launch c (x >>= f) (os ++ us) r s value' := by
  constructor
  · intro next h
    obtain ⟨mid, hmid, hnext⟩ := performAll_append_eq_none.mp h
    obtain ⟨a, s', hrun, hshows, hvalue⟩ := hx.ok mid hmid
    rw [run_bind_ok hrun]
    exact (hf a s' mid hshows hvalue).ok next hnext
  · intro failure next h
    rcases performAll_append_eq_some.mp h with hstop | ⟨mid, hmid, hnext⟩
    · obtain ⟨s', hrun, hshows⟩ := hx.error failure next hstop
      exact ⟨s', run_bind_error hrun, hshows⟩
    · obtain ⟨a, s', hrun, hshows, hvalue⟩ := hx.ok mid hmid
      rw [run_bind_ok hrun]
      exact (hf a s' mid hshows hvalue).error failure next hnext

theorem Performs.get_bind {g : Session → BenchM α} (h : Performs launch c (g s) os r s value) :
    Performs launch c (get >>= g) os r s value :=
  ⟨h.ok, h.error⟩

end

theorem RunState.Shows.log (h : r.Shows s) (records : List Log.Record) :
    r.Shows { s with log := records } :=
  ⟨h.files, h.terminal, h.printed⟩

theorem Performs.note_bind {os : List Operation} {value : RunState → α → Prop}
    {y : Unit → BenchM α} (level : Log.Level) (source : Log.Source) (text : String)
    (hshows : r.Shows s) (hy : ∀ s', r.Shows s' → Performs launch c (y ()) os r s' value) :
    Performs launch c (note level source text >>= y) os r s value := by
  have hnote : Performs launch c (note level source text) [] r s fun next _ => next = r :=
    performs_ok (run_note level source text s) rfl (hshows.log _) rfl
  refine hnote.bind os ?_
  rintro - s' r' hshows' rfl
  exact hy s' hshows'

theorem performs_changeFiles {o : Operation} (change : FileSystem → Except Failure FileSystem)
    {before : RunState} (hshows : before.Shows s)
    (h : o.perform launch c r = before.change (change before.files)) :
    Performs launch c (changeFiles change) [o] r s
      fun next _ => ∃ files, next = { before with files := files } := by
  have hrun := run_changeFiles change s
  rw [hshows.files] at hrun
  cases hchange : change before.files with
  | ok files =>
    rw [hchange] at h hrun
    exact performs_ok hrun ((performAll_singleton o).trans h)
      ⟨rfl, hshows.terminal, hshows.printed⟩ ⟨files, rfl⟩
  | error failure =>
    rw [hchange] at h hrun
    exact performs_error failure hrun ((performAll_singleton o).trans h) hshows

theorem performs_stageImage (hshows : r.Shows s) (a : Arch) :
    Performs launch c (stageImage c a) [.stage a] r s fun next _ => next.reports = r.reports := by
  refine Performs.note_bind _ _ _ hshows fun s' hshows' => ?_
  refine Performs.mono (performs_changeFiles _ hshows' rfl) ?_
  rintro next - ⟨files, rfl⟩
  rfl

theorem performs_runHost (hshows : r.Shows s) (a : Arch) :
    Performs launch c (runHost launch c a) [.start a] r s
      fun next _ => next.reports = r.reports := by
  refine Performs.note_bind _ _ _ hshows fun s₁ hshows₁ => ?_
  refine Performs.note_bind _ _ _ hshows₁ fun s₂ hshows₂ => ?_
  refine Performs.get_bind ?_
  rw [hshows₂.files]
  cases hlaunch : launch (c.hostPath a) (c.runDirectory a) r.files with
  | error fault =>
    refine performs_error (.startHost a (c.hostPath a) fault) rfl ?_ hshows₂
    rw [performAll_singleton, perform_start_of_error hlaunch]
  | ok run =>
    have hnext : RunState.Shows
        { r with files := run.files, printed := r.printed ++ run.printed }
        { s₂ with files := run.files, printed := s₂.printed ++ run.printed } :=
      ⟨rfl, hshows₂.terminal, by rw [hshows₂.printed]⟩
    by_cases hsuccess : run.status.isSuccess = true
    · refine performs_ok (a := ()) ?_ ?_ (hnext.log (s₂.log ++ [⟨.debug, .testHost,
        s!"{a.name} test host exited with {run.status.message}"⟩])) rfl
      · simp only [hsuccess, if_true]
        rfl
      · rw [performAll_singleton, perform_start_of_ok hlaunch, if_pos hsuccess]
    · refine performs_error (.hostFailed a (c.hostPath a) run.status) ?_ ?_ hnext
      · simp only [hsuccess]
        rfl
      · rw [performAll_singleton, perform_start_of_ok hlaunch, if_neg hsuccess]

theorem performs_relocateReport (hshows : r.Shows s) (a : Arch) :
    Performs launch c (relocateReport c a) [.move a, .retitle a] r s
      fun next _ => next.reports = r.reports := by
  refine Performs.get_bind ?_
  rw [hshows.files]
  by_cases hfile : r.files.isFile (c.resultFile a) = true
  · rw [if_pos hfile]
    refine Performs.note_bind _ _ _ hshows fun s₁ hshows₁ => ?_
    have hshows' : RunState.Shows { r with moved := some a } s₁ :=
      ⟨hshows₁.files, hshows₁.terminal, hshows₁.printed⟩
    have hmove : (Operation.move a).perform launch c r = _ := perform_move_of_isFile hfile
    refine Performs.bind (performs_changeFiles
      (fun fs => (fs.move (c.resultFile a) (c.relocatedReport a)).mapError
        (.moveReport (c.resultFile a) (c.relocatedReport a))) hshows' hmove) [.retitle a] ?_
    rintro - s₂ r₂ hshows₂ ⟨files, rfl⟩
    refine Performs.mono (performs_changeFiles _ hshows₂ (perform_retitle_of_moved rfl)) ?_
    rintro next - ⟨files', rfl⟩
    rfl
  · rw [if_neg hfile]
    have hshows' : RunState.Shows { r with moved := none } s :=
      ⟨hshows.files, hshows.terminal, hshows.printed⟩
    exact performs_ok (a := ()) rfl (performAll_relocate_of_not_isFile hfile) (hshows'.log _) rfl

theorem performs_readReport (hshows : r.Shows s) (a : Arch) :
    Performs launch c (readReport c a) [.read a] r s
      fun next report? => next.reports = r.reports ++ (report?.map (a, ·)).toList := by
  refine Performs.get_bind ?_
  rw [hshows.files]
  by_cases hfile : r.files.isFile (c.relocatedReport a) = true
  · rw [if_pos hfile]
    cases hload : Reports.Report.load r.files (c.relocatedReport a) with
    | error error =>
      refine performs_error (.readReport error) rfl ?_ hshows
      rw [performAll_singleton, perform_read_of_error hfile hload]
    | ok report =>
      have hnext : RunState.Shows { r with reports := r.reports ++ [(a, report)] } s :=
        ⟨hshows.files, hshows.terminal, hshows.printed⟩
      refine performs_ok (a := some report) rfl ?_ ((hnext.log _).log _) rfl
      rw [performAll_singleton, perform_read_of_ok hfile hload]
  · rw [if_neg hfile]
    refine performs_ok (a := none) rfl ?_ (hshows.log _) ?_
    · rw [performAll_singleton, perform_read_of_not_isFile hfile]
    · simp

theorem performs_deleteImage (hshows : r.Shows s) (a : Arch) :
    Performs launch c (deleteImage c a) [.delete a] r s fun next _ => next.reports = r.reports := by
  refine Performs.note_bind _ _ _ hshows fun s' hshows' => ?_
  refine Performs.mono (performs_changeFiles _ hshows' rfl) ?_
  rintro next - ⟨files, rfl⟩
  rfl

theorem performs_forM {action : Arch → BenchM Unit} (os : Arch → List Operation)
    (h : ∀ a r s, r.Shows s →
      Performs launch c (action a) (os a) r s fun next _ => next.reports = r.reports)
    (as : List Arch) (hshows : r.Shows s) :
    Performs launch c (as.forM action) (as.flatMap os) r s
      fun next _ => next.reports = r.reports := by
  induction as generalizing r s with
  | nil => exact performs_ok (a := ()) rfl rfl hshows rfl
  | cons a as ih =>
    rw [List.flatMap_cons]
    refine (h a r s hshows).bind (as.flatMap os) ?_
    rintro - s₁ r₁ hshows₁ hreports₁
    refine (ih hshows₁).mono ?_
    rintro next - hreports
    rw [hreports, hreports₁]

theorem performs_stageImages (hshows : r.Shows s) :
    Performs launch c (stageImages c) [.stage .ia32, .stage .x64] r s
      fun next _ => next.reports = r.reports := by
  refine (performs_forM (fun a => [.stage a]) (fun a _ _ h => performs_stageImage h a)
    Arch.all hshows).bind [] ?_
  rintro - s₁ r₁ hshows₁ hreports₁
  exact performs_ok (run_note _ _ _ s₁) rfl (hshows₁.log _) hreports₁

theorem performs_runHosts (hshows : r.Shows s) :
    Performs launch c (runHosts launch c) [.start .ia32, .start .x64] r s
      fun next _ => next.reports = r.reports :=
  performs_forM (fun a => [.start a]) (fun a _ _ h => performs_runHost h a) Arch.all hshows

theorem performs_relocateReports (hshows : r.Shows s) :
    Performs launch c (relocateReports c)
      [.move .ia32, .retitle .ia32, .move .x64, .retitle .x64] r s
      fun next _ => next.reports = r.reports :=
  performs_forM (fun a => [.move a, .retitle a]) (fun a _ _ h => performs_relocateReport h a)
    Arch.all hshows

theorem performs_deleteImages (hshows : r.Shows s) :
    Performs launch c (deleteImages c) [.delete .ia32, .delete .x64] r s
      fun next _ => next.reports = r.reports :=
  performs_forM (fun a => [.delete a]) (fun a _ _ h => performs_deleteImage h a) Arch.all hshows

theorem performs_readReports (as : List Arch) (hshows : r.Shows s) :
    Performs launch c (readReports c as) (as.map .read) r s
      fun next reports => next.reports = r.reports ++ reports := by
  induction as generalizing r s with
  | nil => exact performs_ok (a := []) rfl rfl hshows (by simp)
  | cons a as ih =>
    refine (performs_readReport hshows a).bind (as.map .read) ?_
    intro report? s₁ r₁ hshows₁ hreports₁
    rw [← List.append_nil (as.map _)]
    refine (ih hshows₁).bind [] ?_
    intro reports s₂ r₂ hshows₂ hreports₂
    refine performs_ok rfl rfl hshows₂ ?_
    rw [hreports₂, hreports₁, List.append_assoc]

theorem performs_aggregateReports (hshows : r.Shows s) (hreports : r.reports = []) :
    Performs launch c (aggregateReports c) [.read .ia32, .read .x64] r s
      fun next result => result = (next.merged, next.reports.map Prod.fst) := by
  refine (performs_readReports Arch.all hshows).bind [] ?_
  intro reports s₁ r₁ hshows₁ hreports₁
  refine performs_ok rfl rfl hshows₁ ?_
  rw [RunState.merged, hreports₁, hreports, List.nil_append]

end

/-! ### Summaries -/

section

open Reports

variable {launch : Launcher} {c : Config} {s : Session} {r : RunState}

theorem performs_writeSummary (hshows : r.Shows s) :
    Performs launch c (onTerminal (writeSummary r.merged)) [.summarise] r s
      fun next tally => next.reports = r.reports ∧ tally = r.merged.tally := by
  refine Performs.get_bind ?_
  rw [hshows.terminal]
  cases hwrite : (writeSummary r.merged).run r.terminal with
  | mk answer terminal =>
    have hnext : RunState.Shows { r with terminal := terminal } { s with terminal := terminal } :=
      ⟨hshows.files, rfl, hshows.printed⟩
    cases answer with
    | ok tally =>
      refine performs_ok (a := tally) rfl ?_ hnext ⟨rfl, writeSummary_eq_ok hwrite⟩
      rw [performAll_singleton, perform_summarise_of_ok hwrite]
    | error fault =>
      refine performs_error (.writeSummary fault) rfl ?_ hnext
      rw [performAll_singleton, perform_summarise_of_error hwrite]

/-! ### Whole runs -/

/-- A run performs its operations in order, up to the first that fails. -/
theorem performs_run (hshows : r.Shows s) (hreports : r.reports = []) :
    Performs launch c (run launch c) Operation.sequence r s
      fun next summary => summary = ⟨next.merged.tally, next.reports.map Prod.fst⟩ := by
  rw [Operation.sequence_eq]
  unfold run
  refine (performs_stageImages hshows).bind _ ?_
  rintro - s₁ r₁ hshows₁ hreports₁
  refine (performs_runHosts hshows₁).bind _ ?_
  rintro - s₂ r₂ hshows₂ hreports₂
  refine (performs_relocateReports hshows₂).bind _ ?_
  rintro - s₃ r₃ hshows₃ hreports₃
  have hempty : r₃.reports = [] := by rw [hreports₃, hreports₂, hreports₁, hreports]
  refine (performs_aggregateReports hshows₃ hempty).bind _ ?_
  rintro - s₄ r₄ hshows₄ rfl
  refine (performs_writeSummary hshows₄).bind _ ?_
  rintro tally s₅ r₅ hshows₅ ⟨hreports₅, htally⟩
  have hmerged : r₅.merged = r₄.merged := by rw [RunState.merged, RunState.merged, hreports₅]
  refine (performs_deleteImages hshows₅).bind [] ?_
  rintro - s₆ r₆ hshows₆ hreports₆
  refine performs_ok rfl rfl hshows₆ ?_
  simp [RunState.merged, htally, hreports₅, hreports₆]

theorem shows_initial (s : Session) : (RunState.initial s).Shows s :=
  ⟨rfl, rfl, rfl⟩

theorem run_eq_ok {summary : RunSummary} {s' : Session}
    (h : (run launch c).run s = (.ok summary, s')) : ∃ next,
      performAll launch c Operation.sequence (.initial s) = (none, next) ∧ next.Shows s' ∧
        summary = ⟨next.merged.tally, next.reports.map Prod.fst⟩ :=
  (performs_run (shows_initial s) rfl).of_run_ok h

/-- A run that fails has performed its operations up to one that fails alike. -/
theorem run_eq_error {failure : Failure} {s' : Session}
    (h : (run launch c).run s = (.error failure, s')) : ∃ next,
      performAll launch c Operation.sequence (.initial s) = (some failure, next) ∧
        next.Shows s' :=
  (performs_run (shows_initial s) rfl).of_run_error h

end

end Bench
end FirmwareTests
