import FirmwareTests.Proofs.Bench.Leftovers
import FirmwareTests.Proofs.Console.Limits
import FirmwareTests.Proofs.Files.Outcomes
import FirmwareTests.Proofs.Reports.WrittenSuites

/-!
# Runs that differ in outcomes

Failing assertions do not end a run. Two runs whose hosts do the same, but for which test
cases of their reports fail, what the failures say and which counts are declared, perform the
same operations: both complete, or both end at the same operation with the same failure.
-/

namespace FirmwareTests
namespace Bench

open Files Console FileSystem

/-- Operations of two runs that both succeed, with states in a relation, or that both have the
same failure. -/
inductive EndAlike (Q : RunState → RunState → Prop) :
    Option Failure × RunState → Option Failure × RunState → Prop
  | ok {r r' : RunState} (h : Q r r') : EndAlike Q (none, r) (none, r')
  | error (failure : Failure) (r r' : RunState) : EndAlike Q (some failure, r) (some failure, r')

/-- States that differ in what test cases have come to, and in what was read and written
because of that. Both terminals take in all that is written. -/
structure StatesApart (r r' : RunState) : Prop where
  files : OutcomesApart r.files r'.files
  moved : r'.moved = r.moved
  terminal : r.terminal.Unlimited
  terminal' : r'.terminal.Unlimited

/-- Runs of two hosts that end in the same way, with files in a relation. -/
structure HostRunsAlike (R : FileSystem → FileSystem → Prop) (run run' : HostRun) : Prop where
  status : run'.status = run.status
  files : R run.files run'.files

/-- Where two runs have come to start the host of an architecture with files in a relation,
the host does the same in both of them, as far as the relation tells. -/
def HostsKeep (R : FileSystem → FileSystem → Prop) (launch launch' : Launcher) (c : Config)
    (s s' : Session) : Prop :=
  ∀ a started started', StartsIn launch c s a started → StartsIn launch' c s' a started' →
    R started.files started'.files →
      Agree (HostRunsAlike R) (launch (c.hostPath a) (c.runDirectory a) started.files)
        (launch' (c.hostPath a) (c.runDirectory a) started'.files)

/-- Hosts that do the same in two runs, but for outcomes. -/
def HostsAlike (launch launch' : Launcher) (c : Config) (s s' : Session) : Prop :=
  HostsKeep OutcomesApart launch launch' c s s'

section

variable {launch launch' : Launcher} {c : Config} {os us : List Operation} {o : Operation}
variable {r r' : RunState} {a : Arch} {R : FileSystem → FileSystem → Prop}

/-! ### Rows of operations -/

theorem EndAlike.mono {Q Q' : RunState → RunState → Prop}
    {result result' : Option Failure × RunState} (h : EndAlike Q result result')
    (hQ : ∀ r r', Q r r' → Q' r r') : EndAlike Q' result result' := by
  cases h with
  | ok hnext => exact .ok (hQ _ _ hnext)
  | error failure => exact .error failure _ _

theorem EndAlike.append {Q Q' : RunState → RunState → Prop}
    (h : EndAlike Q (performAll launch c os r) (performAll launch' c os r')) (us : List Operation)
    (hus : ∀ next next', performAll launch c os r = (none, next) →
      performAll launch' c os r' = (none, next') → Q next next' →
        EndAlike Q' (performAll launch c us next) (performAll launch' c us next')) :
    EndAlike Q' (performAll launch c (os ++ us) r) (performAll launch' c (os ++ us) r') := by
  rw [performAll_append, performAll_append]
  generalize hos : performAll launch c os r = result at h hus
  generalize hos' : performAll launch' c os r' = result' at h hus
  cases h with
  | ok hnext => exact hus _ _ rfl rfl hnext
  | error failure => exact .error failure _ _

/-- Where no host is started it does not matter how hosts are started. -/
theorem performAll_eq_of_not_startsHost (hos : ∀ o ∈ os, o.startsHost = false) :
    performAll launch' c os r = performAll launch c os r := by
  induction os generalizing r with
  | nil => rfl
  | cons o os ih =>
    obtain ⟨ho, hos⟩ := List.forall_mem_cons.mp hos
    have hperform : o.perform launch' c r = o.perform launch c r := by
      cases o with
      | start a => cases ho
      | _ => rfl
    rw [performAll, performAll, hperform]
    split
    · exact ih hos
    · rfl

/-! ### Single operations -/

theorem StatesApart.change (h : StatesApart r r') {changed changed' : Except Failure FileSystem}
    (hagree : Agree OutcomesApart changed changed') :
    EndAlike StatesApart (r.change changed) (r'.change changed') := by
  cases hagree with
  | ok hfiles => exact .ok ⟨hfiles, h.moved, h.terminal, h.terminal'⟩
  | error failure => exact .error failure _ _

theorem StatesApart.move (h : StatesApart r r') (a : Arch) :
    EndAlike StatesApart ((Operation.move a).perform launch c r)
      ((Operation.move a).perform launch' c r') := by
  have hfile := h.files.isFile_eq (c.resultFile a)
  by_cases hsource : r.files.isFile (c.resultFile a) = true
  · have hperform : (Operation.move a).perform launch c r = _ := perform_move_of_isFile hsource
    have hperform' : (Operation.move a).perform launch' c r' = _ :=
      perform_move_of_isFile (hfile.trans hsource)
    have hmoved : StatesApart { r with moved := some a } { r' with moved := some a } :=
      ⟨h.files, rfl, h.terminal, h.terminal'⟩
    rw [hperform, hperform']
    exact hmoved.change ((h.files.move _ _).mapError _)
  · have hperform : (Operation.move a).perform launch c r = _ := perform_move_of_not_isFile hsource
    rw [← hfile] at hsource
    have hperform' : (Operation.move a).perform launch' c r' = _ :=
      perform_move_of_not_isFile hsource
    rw [hperform, hperform']
    exact .ok ⟨h.files, rfl, h.terminal, h.terminal'⟩

theorem StatesApart.retitle (h : StatesApart r r') (a : Arch) :
    EndAlike StatesApart ((Operation.retitle a).perform launch c r)
      ((Operation.retitle a).perform launch' c r') := by
  by_cases hmoved : r.moved = some a
  · have hperform : (Operation.retitle a).perform launch c r = _ := perform_retitle_of_moved hmoved
    have hperform' : (Operation.retitle a).perform launch' c r' = _ :=
      perform_retitle_of_moved (h.moved.trans hmoved)
    rw [hperform, hperform']
    exact h.change ((h.files.retitleFile _ _).mapError _)
  · have hperform : (Operation.retitle a).perform launch c r = _ :=
      perform_retitle_of_not_moved hmoved
    rw [← h.moved] at hmoved
    have hperform' : (Operation.retitle a).perform launch' c r' = _ :=
      perform_retitle_of_not_moved hmoved
    rw [hperform, hperform']
    exact .ok h

/-- The reports that are read may differ, but an error is the same. -/
theorem StatesApart.read (h : StatesApart r r') (a : Arch) :
    EndAlike StatesApart ((Operation.read a).perform launch c r)
      ((Operation.read a).perform launch' c r') := by
  have hfile := h.files.isFile_eq (c.relocatedReport a)
  by_cases hreport : r.files.isFile (c.relocatedReport a) = true
  · have hreport' := hfile.trans hreport
    have hload := h.files.load (c.relocatedReport a)
    generalize hresult : Reports.Report.load r.files (c.relocatedReport a) = result at hload
    generalize hresult' : Reports.Report.load r'.files (c.relocatedReport a) = result' at hload
    cases hload with
    | ok =>
      have hperform : (Operation.read a).perform launch c r = _ :=
        perform_read_of_ok hreport hresult
      have hperform' : (Operation.read a).perform launch' c r' = _ :=
        perform_read_of_ok hreport' hresult'
      rw [hperform, hperform']
      exact .ok ⟨h.files, h.moved, h.terminal, h.terminal'⟩
    | error =>
      have hperform : (Operation.read a).perform launch c r = _ :=
        perform_read_of_error hreport hresult
      have hperform' : (Operation.read a).perform launch' c r' = _ :=
        perform_read_of_error hreport' hresult'
      rw [hperform, hperform']
      exact .error _ _ _
  · have hperform : (Operation.read a).perform launch c r = _ := perform_read_of_not_isFile hreport
    rw [← hfile] at hreport
    have hperform' : (Operation.read a).perform launch' c r' = _ :=
      perform_read_of_not_isFile hreport
    rw [hperform, hperform']
    exact .ok h

theorem StatesApart.summarise (h : StatesApart r r') :
    EndAlike StatesApart (Operation.summarise.perform launch c r)
      (Operation.summarise.perform launch' c r') := by
  obtain ⟨t, hwrite, ht⟩ := h.terminal.exists_writeSummary r.merged
  obtain ⟨t', hwrite', ht'⟩ := h.terminal'.exists_writeSummary r'.merged
  have hperform : Operation.summarise.perform launch c r = (none, { r with terminal := t }) :=
    perform_summarise_of_ok hwrite
  have hperform' : Operation.summarise.perform launch' c r' = (none, { r' with terminal := t' }) :=
    perform_summarise_of_ok hwrite'
  rw [hperform, hperform']
  exact .ok ⟨h.files, h.moved, ht, ht'⟩

/-- An operation that starts no host ends alike, whatever test cases have come to. -/
theorem StatesApart.perform (h : StatesApart r r') (ho : o.startsHost = false) :
    EndAlike StatesApart (o.perform launch c r) (o.perform launch' c r') := by
  cases o with
  | stage a => exact h.change ((h.files.copy _ _).mapError _)
  | start a => cases ho
  | move a => exact h.move a
  | retitle a => exact h.retitle a
  | read a => exact h.read a
  | summarise => exact h.summarise
  | delete a => exact h.change ((h.files.remove _).mapError _)

theorem StatesApart.performAll (h : StatesApart r r') (hos : ∀ o ∈ os, o.startsHost = false) :
    EndAlike StatesApart (performAll launch c os r) (performAll launch' c os r') := by
  induction os generalizing r r' with
  | nil => exact .ok h
  | cons o os ih =>
    obtain ⟨ho, hos⟩ := List.forall_mem_cons.mp hos
    have hfirst : EndAlike StatesApart (Bench.performAll launch c [o] r)
        (Bench.performAll launch' c [o] r') := by
      rw [performAll_singleton, performAll_singleton]
      exact h.perform ho
    exact hfirst.append os fun next next' _ _ hnext => ih hnext hos

def ApartIn (R : FileSystem → FileSystem → Prop) (r r' : RunState) : Prop :=
  StatesApart r r' ∧ R r.files r'.files

theorem StatesApart.start (hR : ∀ fs fs', R fs fs' → OutcomesApart fs fs')
    (h : StatesApart r r')
    (hhost : Agree (HostRunsAlike R) (launch (c.hostPath a) (c.runDirectory a) r.files)
      (launch' (c.hostPath a) (c.runDirectory a) r'.files)) :
    EndAlike (ApartIn R) ((Operation.start a).perform launch c r)
      ((Operation.start a).perform launch' c r') := by
  generalize hrun : launch (c.hostPath a) (c.runDirectory a) r.files = result at hhost
  generalize hrun' : launch' (c.hostPath a) (c.runDirectory a) r'.files = result' at hhost
  cases hhost with
  | ok hsame =>
    rw [perform_start_of_ok hrun, perform_start_of_ok hrun', hsame.status]
    split
    · exact .ok ⟨⟨hR _ _ hsame.files, h.moved, h.terminal, h.terminal'⟩, hsame.files⟩
    · exact .error _ _ _
  | error fault =>
    rw [perform_start_of_error hrun, perform_start_of_error hrun']
    exact .error _ _ _

/-! ### Whole runs -/

theorem HostsKeep.start {s s' : Session} (hhosts : HostsKeep R launch launch' c s s')
    (hR : ∀ fs fs', R fs fs' → OutcomesApart fs fs') (hstarts : StartsIn launch c s a r)
    (hstarts' : StartsIn launch' c s' a r') (hapart : ApartIn R r r') :
    EndAlike (ApartIn R) (performAll launch c [.start a] r)
      (performAll launch' c [.start a] r') := by
  rw [performAll_singleton, performAll_singleton]
  exact hapart.1.start hR (hhosts a r r' hstarts hstarts' hapart.2)

/-- Runs that stage alike end alike when their hosts keep a relation that is no wider than
differing in outcomes. -/
theorem endAlike_sequence {s s' : Session} (hR : ∀ fs fs', R fs fs' → OutcomesApart fs fs')
    (hstages : EndAlike (ApartIn R) (performAll launch c [.stage .ia32, .stage .x64] (.initial s))
      (performAll launch' c [.stage .ia32, .stage .x64] (.initial s')))
    (hhosts : HostsKeep R launch launch' c s s') :
    EndAlike StatesApart (performAll launch c Operation.sequence (.initial s))
      (performAll launch' c Operation.sequence (.initial s')) := by
  have hsequence : Operation.sequence = [.stage .ia32, .stage .x64] ++
      ([.start .ia32] ++ ([.start .x64] ++ Operation.closing)) := rfl
  rw [hsequence]
  refine hstages.append _ ?_
  intro r₁ r₁' h₁ h₁' hapart₁
  have hstarts₁ : StartsIn launch c s .ia32 r₁ := h₁
  have hstarts₁' : StartsIn launch' c s' .ia32 r₁' := h₁'
  refine (hhosts.start hR hstarts₁ hstarts₁' hapart₁).append _ ?_
  intro r₂ r₂' h₂ h₂' hapart₂
  have hstarts₂ : StartsIn launch c s .x64 r₂ := startsIn_x64 h₁ h₂
  have hstarts₂' : StartsIn launch' c s' .x64 r₂' := startsIn_x64 h₁' h₂'
  refine (hhosts.start hR hstarts₂ hstarts₂' hapart₂).append _ ?_
  intro r₃ r₃' _ _ hapart₃
  exact hapart₃.1.performAll Operation.startsHost_of_mem_closing

/-- Runs whose operations end alike both complete, or both have the same failure. -/
theorem agree_of_endAlike {s s' : Session} {Q : RunState → RunState → Prop}
    (hends : EndAlike Q (performAll launch c Operation.sequence (.initial s))
      (performAll launch' c Operation.sequence (.initial s'))) :
    Agree (fun _ _ => True) ((run launch c).run s).1 ((run launch' c).run s').1 := by
  have hruns : Performs launch c (run launch c) _ _ _ _ := performs_run (shows_initial s) rfl
  have hruns' : Performs launch' c (run launch' c) _ _ _ _ := performs_run (shows_initial s') rfl
  generalize hperform : performAll launch c Operation.sequence (.initial s) = result at hends
  generalize hperform' : performAll launch' c Operation.sequence (.initial s') = result' at hends
  cases hends with
  | ok =>
    obtain ⟨summary, t, hrun, -⟩ := hruns.ok _ hperform
    obtain ⟨summary', t', hrun', -⟩ := hruns'.ok _ hperform'
    rw [hrun, hrun']
    exact .ok trivial
  | error failure =>
    obtain ⟨t, hrun, -⟩ := hruns.error _ _ hperform
    obtain ⟨t', hrun', -⟩ := hruns'.error _ _ hperform'
    rw [hrun, hrun']
    exact .error failure

/-- Runs whose hosts are alike but for outcomes both complete, or both have the same failure. -/
theorem run_outcomesApart {s s' : Session} (h : StatesApart (.initial s) (.initial s'))
    (hhosts : HostsAlike launch launch' c s s') :
    Agree (fun _ _ => True) ((run launch c).run s).1 ((run launch' c).run s').1 := by
  have hstages : EndAlike StatesApart
      (performAll launch c [.stage .ia32, .stage .x64] (.initial s))
      (performAll launch' c [.stage .ia32, .stage .x64] (.initial s')) :=
    h.performAll (by decide)
  have hapart : ∀ r r', StatesApart r r' → ApartIn OutcomesApart r r' :=
    fun r r' hstates => ⟨hstates, hstates.files⟩
  exact agree_of_endAlike (endAlike_sequence (fun _ _ => id) (hstages.mono hapart) hhosts)

/-! ### Hosts that write suites -/

/-- Entries that are the same, or files that hold written suites with the same title and test
cases. Which test cases fail, what the failures say and the declared counts may differ. -/
inductive SuiteEntries : Option Entry → Option Entry → Prop
  | refl (found : Option Entry) : SuiteEntries found found
  | suites {suite suite' : Reports.WrittenSuite} (htitle : suite'.title = suite.title)
      (hcases : suite'.cases.map Prod.fst = suite.cases.map Prod.fst) (executable : Bool) :
      SuiteEntries (some (.file (Text.bytes suite.document) executable))
        (some (.file (Text.bytes suite'.document) executable))

/-- File systems that are alike but for such suites. -/
structure SuitesApart (fs fs' : FileSystem) : Prop where
  current : fs'.current = fs.current
  entries : ∀ l, SuiteEntries (fs.entryAt? l) (fs'.entryAt? l)

theorem SuitesApart.refl (fs : FileSystem) : SuitesApart fs fs :=
  ⟨rfl, fun _ => .refl _⟩

theorem sameCaseContent_documents {suite suite' : Reports.WrittenSuite}
    (hcases : suite'.cases.map Prod.fst = suite.cases.map Prod.fst) :
    SameCaseContent (Text.bytes suite.document) (Text.bytes suite'.document) :=
  .of_bytes (.suites suite.suiteDocument (hcases ▸ suite'.suiteDocument))

theorem SuitesApart.outcomesApart {fs fs' : FileSystem} (h : SuitesApart fs fs') :
    OutcomesApart fs fs' := by
  refine ⟨h.current, ?_⟩
  intro l
  have hentry := h.entries l
  generalize fs.entryAt? l = found at hentry
  generalize fs'.entryAt? l = found' at hentry
  cases hentry with
  | refl => exact .refl _
  | suites _ hcases executable => exact .files (sameCaseContent_documents hcases) executable

/-- Runs from one state whose hosts are alike but for the suites that they write both complete,
or both have the same failure. -/
theorem run_suitesApart {s s' : Session} (hsame : RunState.initial s' = .initial s)
    (hterminal : s.terminal.Unlimited) (hhosts : HostsKeep SuitesApart launch launch' c s s') :
    Agree (fun _ _ => True) ((run launch c).run s).1 ((run launch' c).run s').1 := by
  have hinitial : StatesApart (.initial s) (.initial s) :=
    ⟨.refl _, rfl, hterminal, hterminal⟩
  have hself : EndAlike StatesApart
      (performAll launch c [.stage .ia32, .stage .x64] (.initial s))
      (performAll launch c [.stage .ia32, .stage .x64] (.initial s)) :=
    hinitial.performAll (by decide)
  -- no host has been started, so staging gives one state in both runs
  have hstaged : performAll launch' c [.stage .ia32, .stage .x64] (.initial s) =
      performAll launch c [.stage .ia32, .stage .x64] (.initial s) :=
    performAll_eq_of_not_startsHost (by decide)
  refine agree_of_endAlike (endAlike_sequence (fun _ _ => SuitesApart.outcomesApart) ?_ hhosts)
  rw [hsame, hstaged]
  generalize performAll launch c [.stage .ia32, .stage .x64] (.initial s) = result at hself
  cases hself with
  | ok hstates => exact .ok ⟨hstates, .refl _⟩
  | error failure => exact .error failure _ _

/-- Hosts that write the suite that is given for their run directory, or nothing. -/
def suiteHosts (suites : String → Option Reports.WrittenSuite) : Launcher :=
  reportingHosts fun directory => (suites directory).map fun suite => Text.bytes suite.document

/-- Hosts that write suites of the same test cases do the same, but for outcomes. -/
theorem hostsAlike_suiteHosts {suites suites' : String → Option Reports.WrittenSuite}
    (h : ∀ directory, (suites' directory).map (fun suite => suite.cases.map Prod.fst) =
      (suites directory).map fun suite => suite.cases.map Prod.fst) (c : Config) (s s' : Session) :
    HostsAlike (suiteHosts suites) (suiteHosts suites') c s s' := by
  intro a started started' _ _ hapart
  have hnames := h (c.runDirectory a)
  unfold suiteHosts reportingHosts
  dsimp only
  cases hsuite : suites (c.runDirectory a) with
  | none =>
    rw [hsuite, Option.map_none, Option.map_eq_none_iff] at hnames
    rw [hnames]
    exact .ok ⟨rfl, hapart⟩
  | some suite =>
    rw [hsuite, Option.map_some, Option.map_eq_some_iff] at hnames
    obtain ⟨suite', hsuite', hsame⟩ := hnames
    rw [hsuite']
    refine (hapart.write _ (sameCaseContent_documents hsame)).bind ?_
    intro files files' _ _ hfiles
    exact .ok ⟨rfl, hfiles⟩

end

end Bench
end FirmwareTests
