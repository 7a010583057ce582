import FirmwareTests.Proofs.Bench.Effects
import FirmwareTests.Bench.ScriptedHost

/-!
# Runs that complete

When hosts keep to their own run directories and leave the prebuilt images alone, a run that
completes has given each host its own image, has moved and retitled the reports that hosts
left, and has summarised exactly the reports that stand relocated in the end. Nothing else is
changed.
-/

namespace FirmwareTests
namespace Bench

open Files Console

def Inside (directory l : Location) : Prop :=
  directory <+: l ∧ directory ≠ l

/-- Hosts that change files only below their own run directory, and never a prebuilt image. -/
structure Confined (launch : Launcher) (c : Config) : Prop where
  current : ∀ a fs run, launch (c.hostPath a) (c.runDirectory a) fs = .ok run →
    run.files.current = fs.current
  inside : ∀ a fs run, launch (c.hostPath a) (c.runDirectory a) fs = .ok run →
    ∀ l, run.files.entryAt? l ≠ fs.entryAt? l →
      Inside (destination fs.current (c.runDirectory a)) l
  images : ∀ a fs run, launch (c.hostPath a) (c.runDirectory a) fs = .ok run →
    ∀ b, run.files.at? (c.sourceImage b) = fs.at? (c.sourceImage b)

section

variable {launch : Launcher} {c : Config} {o : Operation} {os : List Operation}
variable {r next : RunState} {a : Arch}

/-- Around the relocation of a report no operation works on its places. -/
theorem closing_relocate (a : Arch) : ∃ before after,
    Operation.closing = before ++ ([.move a, .retitle a] ++ after) ∧
      ∀ o ∈ before ++ after, o.startsHost = false ∧ .resultFile a ∉ o.places ∧
        .relocatedReport a ∉ o.places := by
  refine ⟨Operation.closing.take (2 * a.index), Operation.closing.drop (2 * a.index + 2), ?_⟩
  cases a <;> decide

theorem kept_of_others
    (hos : ∀ o ∈ os, o.startsHost = false ∧ .resultFile a ∉ o.places ∧
      .relocatedReport a ∉ o.places) (h : performAll launch c os r = (none, next)) :
    FileSystem.SameDirectories r.files next.files ∧
      next.files.at? (c.resultFile a) = r.files.at? (c.resultFile a) ∧
        next.files.at? (c.relocatedReport a) = r.files.at? (c.relocatedReport a) := by
  have hhosts : ∀ o ∈ os, o.startsHost = false := fun o ho => (hos o ho).1
  refine ⟨(changesOnly_performAll h hhosts).directories, ?_, ?_⟩
  · exact at?_performAll (p := .resultFile a) h hhosts fun o ho => (hos o ho).2.1
  · exact at?_performAll (p := .relocatedReport a) h hhosts fun o ho => (hos o ho).2.2

/-- Behind the hosts the report of an architecture is moved and retitled, or there is none. -/
theorem closing_relocated (h : performAll launch c Operation.closing r = (none, next))
    (a : Arch) :
    r.files.isFile (c.resultFile a) = false ∧
        next.files.at? (c.resultFile a) = r.files.at? (c.resultFile a) ∧
          next.files.at? (c.relocatedReport a) = r.files.at? (c.relocatedReport a) ∨
      ∃ content document retitled, r.files.read (c.resultFile a) = .ok content ∧
        Text.ofBytes? content = some document ∧
          Reports.retitle a.title.toList document = .ok retitled ∧
            next.files.at? (c.resultFile a) = none ∧
              next.files.read (c.relocatedReport a) = .ok (Text.bytes retitled) := by
  obtain ⟨before, after, hclosing, hothers⟩ := closing_relocate a
  obtain ⟨hbefore, hafter⟩ := List.forall_mem_append.mp hothers
  rw [hclosing] at h
  obtain ⟨r₁, h₁, h⟩ := performAll_append_eq_none.mp h
  obtain ⟨r₂, hrelocate, h₂⟩ := performAll_append_eq_none.mp h
  have hbefore := kept_of_others hbefore h₁
  have hafter := kept_of_others hafter h₂
  rcases performAll_relocate_eq_none hrelocate with ⟨hnone, hfiles⟩ | hmoved
  · left
    rw [FileSystem.isFile_congr hbefore.1 hbefore.2.1] at hnone
    rw [hfiles] at hafter
    exact ⟨hnone, hafter.2.1.trans hbefore.2.1, hafter.2.2.trans hbefore.2.2⟩
  · obtain ⟨content, document, retitled, hread, htext, hretitled, hgone, hthere⟩ := hmoved
    right
    refine ⟨content, document, retitled, ?_, htext, hretitled, hafter.2.1.trans hgone, ?_⟩
    · exact (FileSystem.read_eq_ok_congr hbefore.1 hbefore.2.1).mp hread
    · exact (FileSystem.read_eq_ok_congr hafter.1 hafter.2.2).mpr hthere

/-! ### Reading and summarising -/

theorem performAll_read (as : List Arch)
    (h : performAll launch c (as.map .read) r = (none, next)) :
    next.files = r.files ∧ ∃ more, next.reports = r.reports ++ more ∧
      more.map Prod.fst = as.filter (fun a => r.files.isFile (c.relocatedReport a)) ∧
        ∀ x ∈ more, Reports.Report.load r.files (c.relocatedReport x.1) = .ok x.2 := by
  induction as generalizing r with
  | nil =>
    cases h
    exact ⟨rfl, [], by simp⟩
  | cons a as ih =>
    obtain ⟨mid, hread, hrest⟩ := performAll_cons_eq_none.mp h
    rcases perform_read_eq_none hread with ⟨hfile, rfl⟩ | ⟨hfile, report, hload, rfl⟩
    · obtain ⟨hfiles, more, hreports, hmore, hloads⟩ := ih hrest
      exact ⟨hfiles, more, hreports, by simp [hmore, hfile], hloads⟩
    · obtain ⟨hfiles, more, hreports, hmore, hloads⟩ := ih hrest
      refine ⟨hfiles, (a, report) :: more, by simp [hreports], by simp [hmore, hfile], ?_⟩
      exact List.forall_mem_cons.mpr ⟨hload, hloads⟩

theorem closing_eq : Operation.closing =
    [.move .ia32, .retitle .ia32, .move .x64, .retitle .x64] ++
      (Arch.all.map .read ++ ([.summarise] ++ Arch.all.map .delete)) := rfl

/-- Behind the hosts the reports that stand relocated in the end are read, and the summary
of their results is written. -/
theorem closing_summarised (h : performAll launch c Operation.closing r = (none, next))
    (hreports : r.reports = []) :
    next.reports.map Prod.fst =
        Arch.all.filter (fun a => next.files.isFile (c.relocatedReport a)) ∧
      (∀ x ∈ next.reports,
        Reports.Report.load next.files (c.relocatedReport x.1) = .ok x.2) ∧
        ∃ tally, (writeSummary next.merged).run r.terminal = (.ok tally, next.terminal) := by
  rw [closing_eq] at h
  obtain ⟨r₁, h₁, h⟩ := performAll_append_eq_none.mp h
  obtain ⟨r₂, h₂, h⟩ := performAll_append_eq_none.mp h
  obtain ⟨hfiles₂, more, hmore, harchs, hloads⟩ := performAll_read Arch.all h₂
  have hreports₁ : r₁.reports = [] := (reports_performAll h₁ (by decide)).trans hreports
  have hreports₂ : next.reports = r₂.reports := reports_performAll h (by decide)
  have hnext : next.reports = more := by rw [hreports₂, hmore, hreports₁, List.nil_append]
  have hterminal₁ : r₁.terminal = r.terminal := terminal_performAll h₁ (by decide)
  have hterminal₂ : r₂.terminal = r₁.terminal := terminal_performAll h₂ (by decide)
  have hhosts : ∀ o ∈ [.summarise] ++ Arch.all.map Operation.delete, o.startsHost = false := by
    decide
  have hdirectories := (changesOnly_performAll h hhosts).directories
  rw [hfiles₂] at hdirectories
  have hat : ∀ a, next.files.at? (c.relocatedReport a) = r₁.files.at? (c.relocatedReport a) := by
    intro a
    rw [← hfiles₂]
    exact at?_performAll (p := .relocatedReport a) h hhosts (by cases a <;> decide)
  obtain ⟨r₃, hsummarise, hdelete⟩ := performAll_append_eq_none.mp h
  rw [performAll_singleton] at hsummarise
  obtain ⟨tally, hwrite, -⟩ := perform_summarise_eq_none hsummarise
  have hterminal₃ : next.terminal = r₃.terminal := terminal_performAll hdelete (by decide)
  refine ⟨?_, ?_, tally, ?_⟩
  · simp only [hnext, harchs, FileSystem.isFile_congr hdirectories (hat _)]
  · intro x hx
    rw [hnext] at hx
    exact (load_eq_ok_congr hdirectories (hat x.1)).mpr (hloads x hx)
  · rw [RunState.merged, hreports₂, hterminal₃, ← hterminal₁, ← hterminal₂]
    exact hwrite

namespace Confined

variable {fs : FileSystem} {run run₃₂ run₆₄ : HostRun}

theorem entryAt?_eq (hconfined : Confined launch c)
    (h : launch (c.hostPath a) (c.runDirectory a) fs = .ok run) {l : Location}
    (hl : ¬ Inside (destination fs.current (c.runDirectory a)) l) :
    run.files.entryAt? l = fs.entryAt? l := by
  by_contra hne
  exact hl (hconfined.inside a fs run h l hne)

end Confined

end

/-! ### Scripted hosts -/

namespace Script

/-- The names that a script works on in the directory that it is started in. -/
def names : List String :=
  [markName, resultFileName, stagedImageName]

def places (directory : String) (current : Location) : List Location :=
  names.map fun name => destination current (join directory name)

variable {directory : String} {fs : FileSystem}

end Script

theorem performAll_sequence_eq_none {launch : Launcher} {c : Config} {s : Session}
    {next : RunState} (h : performAll launch c Operation.sequence (.initial s) = (none, next)) :
    ∃ staged settled,
      performAll launch c [.stage .ia32, .stage .x64] (.initial s) = (none, staged) ∧
        performAll launch c [.start .ia32, .start .x64] staged = (none, settled) ∧
          performAll launch c Operation.closing settled = (none, next) ∧
            settled.reports = [] ∧ settled.terminal = s.terminal := by
  have hsequence : Operation.sequence =
      [.stage .ia32, .stage .x64] ++ ([.start .ia32, .start .x64] ++ Operation.closing) := rfl
  rw [hsequence] at h
  obtain ⟨staged, hstages, h⟩ := performAll_append_eq_none.mp h
  obtain ⟨settled, hstarts, hclosing⟩ := performAll_append_eq_none.mp h
  refine ⟨staged, settled, hstages, hstarts, hclosing, ?_, ?_⟩
  · exact (reports_performAll hstarts (by decide)).trans (reports_performAll hstages (by decide))
  · exact (terminal_performAll hstarts (by decide)).trans (terminal_performAll hstages (by decide))

/-- A script that writes the content of its file as its report. -/
def reportScript (content : List UInt8) : Option Script :=
  some ⟨false, [], true, if content = [] then none else some content, false, none, 0⟩

/-- The small workspace with a host for each architecture, of which one writes a report. -/
def hostedSession : Session :=
  { sampleSession with
    files := { sampleFiles with
      entries := (["w", "IA32", "host"], .file
          (Text.bytes "<testsuite><testcase name=\"s.c.a\"/></testsuite>".toList) true) ::
        (["w", "X64", "host"], .file [] true) :: sampleFiles.entries } }

end Bench
end FirmwareTests
