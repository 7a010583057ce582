import FirmwareTests.Proofs.Bench.Alike
import FirmwareTests.Proofs.Bench.Completion

/-!
# Reports that earlier runs left

A run does not remove the reports that it finds. When a host writes no report, one that an
earlier run left in its place is moved, or one that was relocated then is read again, and
is summarised as if the host had written it. Nothing else of an earlier run shows: when no
architecture whose host writes no report has such a leftover, runs from workspaces that
differ in leftovers have the same outcome, and summarise the reports that hosts wrote.
-/

namespace FirmwareTests
namespace Bench

open Files Console FileSystem

/-- Hosts that do not look at reports and write no other than their own, and that one with
the content that is given for it. -/
structure Discreet (launch : Launcher) (c : Config)
    (report : Arch → FileSystem → Option (List UInt8)) : Prop where
  /-- What they do does not depend on reports. -/
  alike : ∀ a fs fs', SameExcept (reportPlaces c fs.current) fs fs' →
    Agree (fun run run' => run'.status = run.status ∧
        SameExcept (reportPlaces c fs.current) run.files run'.files)
      (launch (c.hostPath a) (c.runDirectory a) fs) (launch (c.hostPath a) (c.runDirectory a) fs')
  /-- Neither does what they write. -/
  written : ∀ a fs fs', SameExcept (reportPlaces c fs.current) fs fs' →
    report a fs' = report a fs
  current : ∀ a fs run, launch (c.hostPath a) (c.runDirectory a) fs = .ok run →
    run.files.current = fs.current
  /-- They write their own report, or leave what is there. -/
  own : ∀ a fs run, launch (c.hostPath a) (c.runDirectory a) fs = .ok run →
    run.files.content? (c.resultFile a) = (report a fs).or (fs.content? (c.resultFile a))
  others : ∀ a b fs run, launch (c.hostPath a) (c.runDirectory a) fs = .ok run → a ≠ b →
    run.files.content? (c.resultFile b) = fs.content? (c.resultFile b)
  relocated : ∀ a b fs run, launch (c.hostPath a) (c.runDirectory a) fs = .ok run →
    run.files.content? (c.relocatedReport b) = fs.content? (c.relocatedReport b)

/-- The operations of a run before the host of an architecture is started. -/
def Operation.before (a : Arch) : List Operation :=
  sequence.takeWhile (· ≠ .start a)

/-- A run starts the host of an architecture in a state. -/
def StartsIn (launch : Launcher) (c : Config) (s : Session) (a : Arch) (r : RunState) : Prop :=
  performAll launch c (Operation.before a) (.initial s) = (none, r)

/-- The reports of an architecture are the same in two file systems. -/
structure KeepsReports (c : Config) (a : Arch) (fs fs' : FileSystem) : Prop where
  result : fs'.content? (c.resultFile a) = fs.content? (c.resultFile a)
  relocated : fs'.content? (c.relocatedReport a) = fs.content? (c.relocatedReport a)

/-- The same report of an architecture is found in two file systems: one to relocate, or
without one a report that is relocated already. -/
structure FindsSame (c : Config) (a : Arch) (fs fs' : FileSystem) : Prop where
  result : fs'.content? (c.resultFile a) = fs.content? (c.resultFile a)
  relocated : fs.content? (c.resultFile a) = none →
    fs'.content? (c.relocatedReport a) = fs.content? (c.relocatedReport a)

theorem KeepsReports.trans {c : Config} {a : Arch} {fs fs' fs'' : FileSystem}
    (h : KeepsReports c a fs fs') (h' : KeepsReports c a fs' fs'') : KeepsReports c a fs fs'' :=
  ⟨h'.result.trans h.result, h'.relocated.trans h.relocated⟩

theorem FindsSame.congr {c : Config} {a : Arch} {fs fs' next next' : FileSystem}
    (h : FindsSame c a fs fs') (hkeeps : KeepsReports c a fs next)
    (hkeeps' : KeepsReports c a fs' next') : FindsSame c a next next' := by
  constructor
  case result => rw [hkeeps'.result, h.result, hkeeps.result]
  case relocated =>
    intro hnone
    rw [hkeeps'.relocated, hkeeps.relocated]
    exact h.relocated (hkeeps.result.symm.trans hnone)

section

variable {launch : Launcher} {c : Config} {current : Location} {os : List Operation}
variable {r r' next next' : RunState} {a b : Arch}
variable {report : Arch → FileSystem → Option (List UInt8)}

/-! ### One run -/

theorem keepsReports_performAll {failure? : Option Failure}
    (h : performAll launch c os r = (failure?, next)) (hos : ∀ o ∈ os, o.startsHost = false)
    (hresult : ∀ o ∈ os, .resultFile a ∉ o.places)
    (hrelocated : ∀ o ∈ os, .relocatedReport a ∉ o.places) :
    KeepsReports c a r.files next.files :=
  ⟨content?_performAll (p := .resultFile a) h hos hresult,
    content?_performAll (p := .relocatedReport a) h hos hrelocated⟩

theorem keepsReports_stages
    (h : performAll launch c [.stage .ia32, .stage .x64] r = (none, next)) (a : Arch) :
    KeepsReports c a r.files next.files :=
  keepsReports_performAll h (by decide) (by simp [Operation.places]) (by simp [Operation.places])

theorem keepsReports_start_other (hdiscreet : Discreet launch c report)
    (h : performAll launch c [.start b] r = (none, next)) (hne : b ≠ a) :
    KeepsReports c a r.files next.files := by
  rw [performAll_singleton] at h
  obtain ⟨run, hlaunch, -, hfiles⟩ := perform_start_eq_none h
  rw [hfiles]
  exact ⟨hdiscreet.others b a _ _ hlaunch hne, hdiscreet.relocated b a _ _ hlaunch⟩

/-- A discreet host leaves its report, or the one that was there. -/
theorem content?_start (hdiscreet : Discreet launch c report)
    (h : performAll launch c [.start a] r = (none, next)) :
    next.files.content? (c.resultFile a) =
        (report a r.files).or (r.files.content? (c.resultFile a)) ∧
      next.files.content? (c.relocatedReport a) = r.files.content? (c.relocatedReport a) := by
  rw [performAll_singleton] at h
  obtain ⟨run, hlaunch, -, hfiles⟩ := perform_start_eq_none h
  rw [hfiles]
  exact ⟨hdiscreet.own a _ _ hlaunch, hdiscreet.relocated a a _ _ hlaunch⟩

/-- The host for X64 is started once the one for IA32 has succeeded. -/
theorem startsIn_x64 {s : Session} (h : StartsIn launch c s .ia32 r)
    (hstart : performAll launch c [.start .ia32] r = (none, next)) :
    StartsIn launch c s .x64 next := by
  have hbefore : Operation.before .x64 = Operation.before .ia32 ++ [.start .ia32] := rfl
  rw [StartsIn, hbefore]
  exact performAll_append_eq_none.mpr ⟨r, h, hstart⟩

/-- Behind discreet hosts there are the reports that they wrote, and leftovers. -/
theorem content?_starts {s : Session} (hdiscreet : Discreet launch c report)
    (hstages : performAll launch c [.stage .ia32, .stage .x64] (.initial s) = (none, r))
    (hstarts : performAll launch c [.start .ia32, .start .x64] r = (none, next)) (a : Arch) :
    ∃ started, StartsIn launch c s a started ∧
      next.files.content? (c.resultFile a) =
        (report a started.files).or (s.files.content? (c.resultFile a)) ∧
      next.files.content? (c.relocatedReport a) = s.files.content? (c.relocatedReport a) := by
  have hkept := keepsReports_stages hstages a
  rw [← List.singleton_append, performAll_append_eq_none] at hstarts
  obtain ⟨mid, h₃₂, h₆₄⟩ := hstarts
  cases a with
  | ia32 =>
    have hlast := keepsReports_start_other (a := .ia32) hdiscreet h₆₄ (by decide)
    obtain ⟨hresult, hrelocated⟩ := content?_start hdiscreet h₃₂
    rw [hkept.result] at hresult
    exact ⟨r, hstages, hlast.result.trans hresult,
      hlast.relocated.trans (hrelocated.trans hkept.relocated)⟩
  | x64 =>
    have hfirst := hkept.trans (keepsReports_start_other (a := .x64) hdiscreet h₃₂ (by decide))
    obtain ⟨hresult, hrelocated⟩ := content?_start hdiscreet h₆₄
    rw [hfirst.result] at hresult
    exact ⟨mid, startsIn_x64 hstages h₃₂, hresult, hrelocated.trans hfirst.relocated⟩

/-- A run that completes summarises the reports that its hosts wrote, and leftovers. -/
theorem mem_reports_iff {s s' : Session} {summary : RunSummary}
    (hdiscreet : Discreet launch c report) (h : (run launch c).run s = (.ok summary, s'))
    (a : Arch) : a ∈ summary.reports ↔
      (∃ started, StartsIn launch c s a started ∧ report a started.files ≠ none) ∨
        s.files.isFile (c.resultFile a) = true ∨ s.files.isFile (c.relocatedReport a) = true := by
  obtain ⟨next, hperform, -, hsummary⟩ := run_eq_ok h
  obtain ⟨staged, settled, hstages, hstarts, hclosing, hreports, -⟩ :=
    performAll_sequence_eq_none hperform
  obtain ⟨harchs, -⟩ := closing_summarised hclosing hreports
  obtain ⟨started, hstarted, hresult, hrelocated⟩ := content?_starts hdiscreet hstages hstarts a
  have hunique : (∃ started, StartsIn launch c s a started ∧ report a started.files ≠ none) ↔
      report a started.files ≠ none := by
    constructor
    · rintro ⟨started', hstarted', hreport⟩
      rw [StartsIn, hstarted] at hstarted'
      cases hstarted'
      exact hreport
    · intro hreport
      exact ⟨started, hstarted, hreport⟩
  have hmem : a ∈ summary.reports ↔ next.files.isFile (c.relocatedReport a) = true := by
    rw [hsummary, harchs, List.mem_filter]
    exact and_iff_right (by cases a <;> decide)
  have hfound : next.files.isFile (c.relocatedReport a) = true ↔
      settled.files.isFile (c.resultFile a) = true ∨
        settled.files.isFile (c.relocatedReport a) = true := by
    have hdirectories :=
      (changesOnly_performAll hclosing Operation.startsHost_of_mem_closing).directories
    rcases closing_relocated hclosing a with ⟨hnone, -, hkept⟩ | hmoved
    · rw [isFile_congr hdirectories hkept, hnone]
      simp
    · obtain ⟨content, document, retitled, hread, -, -, -, hthere⟩ := hmoved
      rw [isFile_of_read hread, isFile_of_read hthere]
      simp
  rw [hmem, hfound, hunique]
  simp only [isFile_eq_isSome_content?, hresult, hrelocated]
  cases report a started.files <;> simp

/-! ### Two runs -/

theorem performAlike_start (hdiscreet : Discreet launch c report) (h : Alike c current r r')
    (a : Arch) : PerformAlike launch c [.start a] r r' (Alike c current) := by
  have hhere := h.here
  subst hhere
  have halike := hdiscreet.alike a r.files r'.files h.files
  generalize hlaunch : launch (c.hostPath a) (c.runDirectory a) r.files = result at halike
  generalize hlaunch' : launch (c.hostPath a) (c.runDirectory a) r'.files = result' at halike
  cases halike with
  | error fault =>
    exact .single_error (perform_start_of_error hlaunch) (perform_start_of_error hlaunch')
      h.terminal
  | ok hsame =>
    obtain ⟨hstatus, hfiles⟩ := hsame
    have hperform := perform_start_of_ok hlaunch
    have hperform' := perform_start_of_ok hlaunch'
    rw [hstatus] at hperform'
    split at hperform
    · next hsuccess =>
      rw [if_pos hsuccess] at hperform'
      exact .single_ok hperform hperform'
        ⟨hdiscreet.current _ _ _ hlaunch, hfiles, h.terminal, h.moved, h.reports⟩
    · next hsuccess =>
      rw [if_neg hsuccess] at hperform'
      exact .single_error hperform hperform' h.terminal

/-- Behind a host that writes a report this report is found, and else the one before it. -/
theorem findsSame_start (hdiscreet : Discreet launch c report) (halike : Alike c current r r')
    (h : performAll launch c [.start a] r = (none, next))
    (h' : performAll launch c [.start a] r' = (none, next'))
    (hsame : report a r.files = none → FindsSame c a r.files r'.files) :
    FindsSame c a next.files next'.files := by
  have hhere := halike.here
  subst hhere
  have hwritten := hdiscreet.written a _ _ halike.files
  obtain ⟨hresult, hrelocated⟩ := content?_start hdiscreet h
  obtain ⟨hresult', hrelocated'⟩ := content?_start hdiscreet h'
  cases hreport : report a r.files with
  | none =>
    rw [hwritten, hreport, Option.none_or] at hresult'
    rw [hreport, Option.none_or] at hresult
    exact (hsame hreport).congr ⟨hresult, hrelocated⟩ ⟨hresult', hrelocated'⟩
  | some content =>
    rw [hwritten, hreport, Option.some_or] at hresult'
    rw [hreport, Option.some_or] at hresult
    constructor
    case result => rw [hresult, hresult']
    case relocated =>
      intro hnone
      rw [hresult] at hnone
      cases hnone

theorem performAlike_sequence {s s' : Session} (hdiscreet : Discreet launch c report)
    (haside : ReportsAside c s.files.current)
    (hfiles : SameExcept (reportPlaces c s.files.current) s.files s'.files)
    (hterminal : s'.terminal = s.terminal)
    (hsame : ∀ a started, StartsIn launch c s a started → report a started.files = none →
      FindsSame c a s.files s'.files) :
    PerformAlike launch c Operation.sequence (.initial s) (.initial s')
      (Alike c s.files.current) := by
  have hsequence : Operation.sequence = [.stage .ia32, .stage .x64] ++
      ([.start .ia32] ++ ([.start .x64] ++ Operation.closing)) := rfl
  have hinitial : Alike c s.files.current (.initial s) (.initial s') :=
    ⟨rfl, hfiles, hterminal, rfl, rfl⟩
  rw [hsequence]
  refine (performAlike_stages haside hinitial).append _ ?_
  intro r₁ r₁' h₁ h₁' halike₁
  have hsame₁ : ∀ a, FindsSame c a s.files s'.files → FindsSame c a r₁.files r₁'.files :=
    fun a h => h.congr (keepsReports_stages h₁ a) (keepsReports_stages h₁' a)
  refine (performAlike_start hdiscreet halike₁ .ia32).append _ ?_
  intro r₂ r₂' h₂ h₂' halike₂
  -- each host settles the reports of its own architecture and keeps the others
  have h₃₂ : FindsSame c .ia32 r₂.files r₂'.files :=
    findsSame_start hdiscreet halike₁ h₂ h₂' fun hnone => hsame₁ _ (hsame _ r₁ h₁ hnone)
  refine (performAlike_start hdiscreet halike₂ .x64).append _ ?_
  intro r₃ r₃' h₃ h₃' halike₃
  have h₆₄ : FindsSame c .x64 r₃.files r₃'.files := by
    refine findsSame_start hdiscreet halike₂ h₃ h₃' fun hnone => ?_
    exact (hsame₁ _ (hsame _ r₂ (startsIn_x64 h₁ h₂) hnone)).congr
      (keepsReports_start_other hdiscreet h₂ (by decide))
      (keepsReports_start_other hdiscreet h₂' (by decide))
  replace h₃₂ : FindsSame c .ia32 r₃.files r₃'.files :=
    h₃₂.congr (keepsReports_start_other hdiscreet h₃ (by decide))
      (keepsReports_start_other hdiscreet h₃' (by decide))
  have hboth : ∀ a, FindsSame c a r₃.files r₃'.files := by
    intro a
    cases a with
    | ia32 => exact h₃₂
    | x64 => exact h₆₄
  exact performAlike_closing haside halike₃ (fun a => (hboth a).result)
    fun a => (hboth a).relocated

theorem run_alike {s s' : Session} {Q : RunState → RunState → Prop}
    (h : PerformAlike launch c Operation.sequence (.initial s) (.initial s') Q)
    (hQ : ∀ next next', Q next next' →
      next'.terminal = next.terminal ∧ next'.reports = next.reports) :
    ((run launch c).run s').1 = ((run launch c).run s).1 ∧
      ((run launch c).run s').2.terminal = ((run launch c).run s).2.terminal := by
  have hruns : Performs launch c (run launch c) _ _ _ _ := performs_run (shows_initial s) rfl
  have hruns' : Performs launch c (run launch c) _ _ _ _ := performs_run (shows_initial s') rfl
  cases h with
  | ok h h' hnext =>
    obtain ⟨hterminal, hreports⟩ := hQ _ _ hnext
    obtain ⟨summary, t, hrun, hshows, rfl⟩ := hruns.ok _ h
    obtain ⟨summary', t', hrun', hshows', rfl⟩ := hruns'.ok _ h'
    rw [hrun, hrun', hshows.terminal, hshows'.terminal, RunState.merged, RunState.merged, hreports]
    exact ⟨rfl, hterminal⟩
  | error h h' hterminal =>
    obtain ⟨t, hrun, hshows⟩ := hruns.error _ _ h
    obtain ⟨t', hrun', hshows'⟩ := hruns'.error _ _ h'
    rw [hrun, hrun', hshows.terminal, hshows'.terminal]
    exact ⟨rfl, hterminal⟩

end

/-! ### Hosts that only write reports -/

/-- Hosts that write the report that is given for their run directory, or nothing. -/
def reportingHosts (reports : String → Option (List UInt8)) : Launcher :=
  fun _ directory fs =>
    match reports directory with
    | none => .ok ⟨fs, [], .exited 0⟩
    | some report => do
      let files ← fs.write (join directory resultFileName) report
      return ⟨files, [], .exited 0⟩

section

variable {reports : String → Option (List UInt8)} {c : Config} {a : Arch} {fs : FileSystem}
variable {run : HostRun}

theorem reportingHosts_eq_ok
    (h : reportingHosts reports (c.hostPath a) (c.runDirectory a) fs = .ok run) :
    reports (c.runDirectory a) = none ∧ run.files = fs ∨
      ∃ report, reports (c.runDirectory a) = some report ∧
        fs.write (c.resultFile a) report = .ok run.files := by
  unfold reportingHosts at h
  split at h
  · next hnone =>
    cases h
    exact .inl ⟨hnone, rfl⟩
  · next report hreport =>
    obtain ⟨files, hwrite, hrun⟩ := bind_eq_ok_iff.mp h
    cases hrun
    exact .inr ⟨report, hreport, hwrite⟩

theorem changesOnly_reportingHosts
    (h : reportingHosts reports (c.hostPath a) (c.runDirectory a) fs = .ok run) :
    ChangesOnly [destination fs.current (c.resultFile a)] fs run.files := by
  rcases reportingHosts_eq_ok h with ⟨-, hfiles⟩ | ⟨report, -, hwrite⟩
  · rw [hfiles]
    exact .refl _ _
  · exact changesOnly_write hwrite

theorem content?_reportingHosts {p : Place}
    (h : reportingHosts reports (c.hostPath a) (c.runDirectory a) fs = .ok run)
    (hp : p ≠ .resultFile a) :
    run.files.content? (p.path c) = fs.content? (p.path c) := by
  have hchanges := changesOnly_reportingHosts h
  refine content?_congr hchanges.directories ?_
  rw [at?, at?, hchanges.directories.current]
  refine hchanges.elsewhere _ (List.mem_singleton.not.mpr ?_)
  exact fun heq => hp (Place.location_inj (q := .resultFile a) heq)

theorem discreet_reportingHosts (haside : ∀ current, ReportsAside c current)
    (reports : String → Option (List UInt8)) :
    Discreet (reportingHosts reports) c fun a _ => reports (c.runDirectory a) := by
  constructor
  case alike =>
    intro a fs fs' h
    unfold reportingHosts
    cases reports (c.runDirectory a) with
    | none => exact .ok ⟨rfl, h⟩
    | some report =>
      have hway : ∀ l ∈ way fs.current (c.resultFile a), l ∉ reportPlaces c fs.current :=
        fun l hl => haside _ a l (List.mem_append_right _ (mem_way_resultFile.mp hl))
      refine (h.write hway (resultFile_mem c _ a)).bind ?_
      intro files files' _ _ hfiles
      exact .ok ⟨rfl, hfiles⟩
  case written =>
    intro a fs fs' _
    rfl
  case current =>
    intro a fs run h
    exact (changesOnly_reportingHosts h).directories.current
  case own =>
    intro a fs run h
    rcases reportingHosts_eq_ok h with ⟨hnone, hfiles⟩ | ⟨report, hreport, hwrite⟩
    · rw [hnone, hfiles, Option.none_or]
    · rw [hreport, Option.some_or]
      exact content?_eq_some_iff.mpr (read_write hwrite)
  case others =>
    intro a b fs run h hne
    exact content?_reportingHosts (p := .resultFile b) h (by simpa using hne.symm)
  case relocated =>
    intro a b fs run h
    exact content?_reportingHosts (p := .relocatedReport b) h (by simp)

end

theorem reportsAside_sampleConfig (current : Location) : ReportsAside sampleConfig current := by
  have hways : ∀ a, ∀ l ∈ way [] (sampleConfig.sourceImage a) ++
      way [] (sampleConfig.stagedImage a), l ∉ reportPlaces sampleConfig [] := by
    intro a
    cases a <;> decide +kernel
  have hplaces : reportPlaces sampleConfig current = reportPlaces sampleConfig [] := by
    refine List.map_congr_left fun p _ => ?_
    exact destination_of_isAbsolute (by cases p with | _ a => cases a <;> decide +kernel) current
  intro a
  have hsource : isAbsolute (sampleConfig.sourceImage a) = true := by
    cases a <;> decide +kernel
  have hstaged : isAbsolute (sampleConfig.stagedImage a) = true := by
    cases a <;> decide +kernel
  rw [hplaces, way_of_isAbsolute hsource, way_of_isAbsolute hstaged]
  exact hways a

def leftoverReport : List UInt8 :=
  Text.bytes "<testsuite><testcase name=\"s.c.a\"/><testcase name=\"s.c.b\"/></testsuite>".toList

/-- The small workspace with a report that an earlier run left at a place. -/
def leftoverSession (p : Place) : Session :=
  { sampleSession with
    files := sampleFiles.put (p.location sampleConfig []) (.file leftoverReport false) }

theorem sameExcept_leftoverSession {p : Place} (hp : p ∈ Place.reports) :
    SameExcept (reportPlaces sampleConfig []) sampleSession.files (leftoverSession p).files := by
  have hplaces : ∀ l ∈ reportPlaces sampleConfig [],
      sampleFiles.entryAt? l ≠ some .directory := by
    decide +kernel
  have hmem : p.location sampleConfig [] ∈ reportPlaces sampleConfig [] :=
    location_mem_reportPlaces.mpr hp
  refine .of_changesOnly ((changesOnly_put (hplaces _ hmem) _ _).mono ?_) hplaces
  exact List.forall_mem_singleton.mpr hmem

/-! ### Whole runs -/

/-- Runs from workspaces that differ in leftovers have the same outcome when they find the same
report of each architecture whose host writes none. A run that completes summarises the
reports that its hosts wrote, and leftovers. -/
theorem run_leftovers {launch : Launcher} {c : Config} {s s' : Session}
    {report : Arch → FileSystem → Option (List UInt8)} (hdiscreet : Discreet launch c report)
    (haside : ReportsAside c s.files.current)
    (hfiles : SameExcept (reportPlaces c s.files.current) s.files s'.files)
    (hterminal : s'.terminal = s.terminal) :
    ((∀ a started, StartsIn launch c s a started → report a started.files = none →
        FindsSame c a s.files s'.files) →
      ((run launch c).run s').1 = ((run launch c).run s).1 ∧
        ((run launch c).run s').2.terminal = ((run launch c).run s).2.terminal) ∧
    ∀ summary t, (run launch c).run s = (.ok summary, t) → ∀ a, a ∈ summary.reports ↔
      (∃ started, StartsIn launch c s a started ∧ report a started.files ≠ none) ∨
        s.files.isFile (c.resultFile a) = true ∨
          s.files.isFile (c.relocatedReport a) = true := by
  constructor
  · intro hsame
    refine run_alike (performAlike_sequence hdiscreet haside hfiles hterminal hsame) ?_
    intro next next' halike
    exact ⟨halike.terminal, halike.reports⟩
  · intro summary t h
    exact mem_reports_iff hdiscreet h

/-- Only the host for IA32 writes a report, with one assertion. -/
def sampleReports (directory : String) : Option (List UInt8) :=
  if directory = sampleConfig.runDirectory .ia32 then
    some (Text.bytes "<testsuite><testcase name=\"s.c.a\"/></testsuite>".toList)
  else none

/-- A leftover that the host writes over makes no difference. -/
theorem run_leftovers_overwritten :
    Discreet (reportingHosts sampleReports) sampleConfig
        (fun a _ => sampleReports (sampleConfig.runDirectory a)) ∧
      ReportsAside sampleConfig sampleSession.files.current ∧
      SameExcept (reportPlaces sampleConfig sampleSession.files.current) sampleSession.files
        (leftoverSession (.resultFile .ia32)).files ∧
      ((run (reportingHosts sampleReports) sampleConfig).run sampleSession).1 =
        .ok ⟨⟨1, 0⟩, [.ia32]⟩ ∧
      ((run (reportingHosts sampleReports) sampleConfig).run
        (leftoverSession (.resultFile .ia32))).1 = .ok ⟨⟨1, 0⟩, [.ia32]⟩ := by
  have hdiscreet := discreet_reportingHosts reportsAside_sampleConfig sampleReports
  have haside := reportsAside_sampleConfig []
  have hfiles := sameExcept_leftoverSession (p := .resultFile .ia32) (by decide)
  have hfirst : ((run (reportingHosts sampleReports) sampleConfig).run sampleSession).1 =
      .ok ⟨⟨1, 0⟩, [.ia32]⟩ := by
    decide +kernel
  have hsame := (run_leftovers (s := sampleSession) hdiscreet haside hfiles rfl).1
  refine ⟨hdiscreet, haside, hfiles, hfirst, (hsame ?_).1.trans hfirst⟩
  rintro a started - hnone
  cases a with
  | ia32 => exact absurd hnone (by decide +kernel)
  | x64 => exact ⟨by decide +kernel, fun _ => by decide +kernel⟩

/-- A leftover is summarised although neither host wrote a report. -/
theorem run_leftovers_summarised :
    Discreet (reportingHosts fun _ => none) sampleConfig (fun _ _ => none) ∧
      SameExcept (reportPlaces sampleConfig sampleSession.files.current) sampleSession.files
        (leftoverSession (.relocatedReport .x64)).files ∧
      (leftoverSession (.relocatedReport .x64)).terminal = sampleSession.terminal ∧
      ((run (reportingHosts fun _ => none) sampleConfig).run sampleSession).1 =
        .ok ⟨⟨0, 0⟩, []⟩ ∧
      ((run (reportingHosts fun _ => none) sampleConfig).run
        (leftoverSession (.relocatedReport .x64))).1 = .ok ⟨⟨2, 0⟩, [.x64]⟩ :=
  ⟨discreet_reportingHosts reportsAside_sampleConfig fun _ => none,
    sameExcept_leftoverSession (by decide), rfl, by decide +kernel, by decide +kernel⟩

end Bench
end FirmwareTests
