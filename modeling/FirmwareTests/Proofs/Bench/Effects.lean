import FirmwareTests.Proofs.Bench.Operations

/-!
# What the operations of a run change

A run works on eight places: for each architecture the prebuilt image, the staged image,
the report that the host writes and the relocated report. Different places are different
locations, wherever the workspace is. An operation other than the start of a host changes
no directory, and files at one or two places only.
-/

namespace FirmwareTests
namespace Bench

open Files Console

/-! ### Places -/

/-- A place that a run works on. -/
inductive Place where
  | sourceImage (a : Arch)
  | stagedImage (a : Arch)
  | resultFile (a : Arch)
  | relocatedReport (a : Arch)
  deriving DecidableEq, Repr

namespace Place

def path (c : Config) : Place → String
  | sourceImage a => c.sourceImage a
  | stagedImage a => c.stagedImage a
  | resultFile a => c.resultFile a
  | relocatedReport a => c.relocatedReport a

def directory (c : Config) : Place → String
  | sourceImage _ => c.imageDirectory
  | stagedImage a => c.runDirectory a
  | resultFile a => c.runDirectory a
  | relocatedReport _ => c.workspace

def fileName : Place → String
  | sourceImage a => a.imageName
  | stagedImage _ => stagedImageName
  | resultFile _ => resultFileName
  | relocatedReport a => a.reportName

def location (c : Config) (current : Location) (p : Place) : Location :=
  destination current (p.path c)

variable (c : Config) (current current' : Location)

theorem path_eq_join (p : Place) : p.path c = join (p.directory c) p.fileName := by
  cases p <;> rfl

theorem isName_fileName (p : Place) : IsName p.fileName := by
  cases p with
  | sourceImage a | stagedImage a | resultFile a | relocatedReport a => cases a <;> decide

theorem location_eq (p : Place) :
    p.location c current = destination current (p.directory c) ++ [p.fileName] := by
  rw [location, path_eq_join, destination_join _ _ p.isName_fileName]

end Place

theorem isName_name (a : Arch) : IsName a.name := by
  cases a <;> decide

theorem name_inj {a b : Arch} (h : a.name = b.name) : a = b := by
  revert h
  cases a <;> cases b <;> decide

theorem destination_runDirectory (c : Config) (a : Arch) (current : Location) :
    destination current (c.runDirectory a) = destination current c.workspace ++ [a.name] :=
  destination_join current c.workspace (isName_name a)

theorem runDirectory_inj {c : Config} {a b : Arch} {current current' : Location}
    (h : destination current (c.runDirectory a) = destination current' (c.runDirectory b)) :
    a = b := by
  rw [destination_runDirectory, destination_runDirectory] at h
  exact name_inj (List.singleton_inj.mp (List.append_inj' h rfl).2)

theorem Place.location_inj {c : Config} {p q : Place} {current current' : Location}
    (h : p.location c current = q.location c current') : p = q := by
  rw [location_eq, location_eq] at h
  obtain ⟨hdirectory, hname⟩ := List.append_inj' h rfl
  replace hname := List.singleton_inj.mp hname
  -- Staged images share their name, and so do result files: there the run directories differ.
  cases p with
  | sourceImage a | relocatedReport a =>
    cases q with
    | sourceImage b | stagedImage b | resultFile b | relocatedReport b =>
      revert hname
      cases a <;> cases b <;> decide
  | stagedImage a =>
    cases q with
    | stagedImage b => rw [runDirectory_inj hdirectory]
    | sourceImage b | resultFile b | relocatedReport b =>
      revert hname
      cases a <;> cases b <;> decide
  | resultFile a =>
    cases q with
    | resultFile b => rw [runDirectory_inj hdirectory]
    | sourceImage b | stagedImage b | relocatedReport b =>
      revert hname
      cases a <;> cases b <;> decide

theorem sourceImage_ne_stagedImage (c : Config) (a : Arch) (current : Location) :
    destination current (c.sourceImage a) ≠ destination current (c.stagedImage a) := by
  intro heq
  cases Place.location_inj (p := .sourceImage a) (q := .stagedImage a) heq

theorem resultFile_ne_relocatedReport (c : Config) (a : Arch) (current : Location) :
    destination current (c.resultFile a) ≠ destination current (c.relocatedReport a) := by
  intro heq
  cases Place.location_inj (p := .resultFile a) (q := .relocatedReport a) heq

/-! ### A small workspace -/

def sampleConfig : Config :=
  ⟨"/w", ⟨"b", "t", "c"⟩, "host"⟩

/-- A workspace with both prebuilt images and nothing in its run directories. -/
def sampleFiles : FileSystem where
  entries := [(["w"], .directory), (["w", "IA32"], .directory), (["w", "X64"], .directory),
    (["Build"], .directory), (["Build", "b"], .directory), (["Build", "b", "t_c"], .directory),
    (["Build", "b", "t_c", "FV"], .directory),
    (["Build", "b", "t_c", "FV", "UNITTEST32.fd"], .file [0x32] false),
    (["Build", "b", "t_c", "FV", "UNITTEST64.fd"], .file [0x64] false)]
  current := []

def sampleSession : Session :=
  ⟨sampleFiles, .ofSink .unlimited, [], []⟩

/-! ### What operations change -/

namespace Operation

def startsHost : Operation → Bool
  | start _ => true
  | _ => false

def reads : Operation → Bool
  | read _ => true
  | _ => false

/-- The places that an operation changes by itself. What a host changes is not counted. -/
def places : Operation → List Place
  | stage a => [.stagedImage a]
  | move a => [.relocatedReport a, .resultFile a]
  | retitle a => [.relocatedReport a]
  | delete a => [.stagedImage a]
  | _ => []

/-- The operations of a run behind the hosts. -/
def closing : List Operation :=
  sequence.drop 4

theorem startsHost_of_mem_closing : ∀ o ∈ closing, o.startsHost = false := by
  decide

end Operation

theorem sourceImage_notMem_places (a : Arch) (o : Operation) : .sourceImage a ∉ o.places := by
  cases o <;> simp [Operation.places]

section

variable {launch : Launcher} {c : Config} {o : Operation} {os : List Operation}
variable {r next : RunState} {failure : Failure} {a : Arch}

namespace RunState

@[simp] theorem change_ok (files : FileSystem) :
    r.change (.ok files) = (none, { r with files := files }) := rfl

@[simp] theorem change_error : r.change (.error failure) = (some failure, r) := rfl

theorem change_eq_none {changed : Except Failure FileSystem}
    (h : r.change changed = (none, next)) :
    ∃ files, changed = .ok files ∧ next = { r with files := files } := by
  cases changed with
  | ok files =>
    cases h
    exact ⟨files, rfl, rfl⟩
  | error failure => cases h

theorem change_eq_some {changed : Except Failure FileSystem}
    (h : r.change changed = (some failure, next)) : next = r := by
  cases changed with
  | ok files => cases h
  | error failure =>
    cases h
    rfl

@[simp] theorem terminal_change (changed : Except Failure FileSystem) :
    (r.change changed).2.terminal = r.terminal := by
  cases changed <;> rfl

@[simp] theorem reports_change (changed : Except Failure FileSystem) :
    (r.change changed).2.reports = r.reports := by
  cases changed <;> rfl

theorem changesOnly_change {places : List Location} {changed : Except Failure FileSystem}
    (h : ∀ files, changed = .ok files → FileSystem.ChangesOnly places r.files files) :
    FileSystem.ChangesOnly places r.files (r.change changed).2.files := by
  cases changed with
  | ok files => exact h files rfl
  | error failure => exact .refl places r.files

end RunState

/-- An operation other than the start of a host changes its places only. -/
theorem changesOnly_perform (ho : o.startsHost = false) :
    FileSystem.ChangesOnly (o.places.map (Place.location c r.files.current)) r.files
      (o.perform launch c r).2.files := by
  cases o with
  | stage a =>
    refine RunState.changesOnly_change fun files h => ?_
    exact FileSystem.changesOnly_copy (sourceImage_ne_stagedImage c a _)
      (mapError_eq_ok_iff.mp h)
  | start a => cases ho
  | move a =>
    by_cases hfile : r.files.isFile (c.resultFile a) = true
    · rw [perform_move_of_isFile hfile]
      refine RunState.changesOnly_change (r := { r with moved := some a }) fun files h => ?_
      exact FileSystem.changesOnly_move (resultFile_ne_relocatedReport c a _)
        (mapError_eq_ok_iff.mp h)
    · rw [perform_move_of_not_isFile hfile]
      exact .refl _ _
  | retitle a =>
    by_cases hmoved : r.moved = some a
    · rw [perform_retitle_of_moved hmoved]
      refine RunState.changesOnly_change fun files h => ?_
      exact changesOnly_retitleFile (mapError_eq_ok_iff.mp h)
    · rw [perform_retitle_of_not_moved hmoved]
      exact .refl _ _
  | read a =>
    simp only [Operation.perform]
    split
    · split
      · exact .refl _ _
      · exact .refl _ _
    · exact .refl _ _
  | summarise => exact .refl _ _
  | delete a =>
    refine RunState.changesOnly_change fun files h => ?_
    exact FileSystem.changesOnly_remove (mapError_eq_ok_iff.mp h)

/-- An operation other than the start of a host that fails leaves the files as they were. -/
theorem files_perform_eq_some (ho : o.startsHost = false)
    (h : o.perform launch c r = (some failure, next)) : next.files = r.files := by
  cases o with
  | stage a => rw [RunState.change_eq_some h]
  | start a => cases ho
  | move a =>
    by_cases hfile : r.files.isFile (c.resultFile a) = true
    · rw [perform_move_of_isFile hfile] at h
      rw [RunState.change_eq_some h]
    · rw [perform_move_of_not_isFile hfile] at h
      cases h
  | retitle a =>
    by_cases hmoved : r.moved = some a
    · rw [perform_retitle_of_moved hmoved] at h
      rw [RunState.change_eq_some h]
    · rw [perform_retitle_of_not_moved hmoved] at h
      cases h
  | read a =>
    simp only [Operation.perform] at h
    split at h
    · split at h
      · cases h
        rfl
      · cases h
    · cases h
  | summarise => rw [← (Prod.mk.inj h).2]
  | delete a => rw [RunState.change_eq_some h]

theorem terminal_perform (ho : o ≠ .summarise) :
    (o.perform launch c r).2.terminal = r.terminal := by
  cases o with
  | stage a => exact RunState.terminal_change _
  | start a =>
    simp only [Operation.perform]
    split <;> rfl
  | move a =>
    by_cases hfile : r.files.isFile (c.resultFile a) = true
    · rw [perform_move_of_isFile hfile]
      exact RunState.terminal_change _
    · rw [perform_move_of_not_isFile hfile]
  | retitle a =>
    by_cases hmoved : r.moved = some a
    · rw [perform_retitle_of_moved hmoved]
      exact RunState.terminal_change _
    · rw [perform_retitle_of_not_moved hmoved]
  | read a =>
    simp only [Operation.perform]
    split
    · split <;> rfl
    · rfl
  | summarise => exact absurd rfl ho
  | delete a => exact RunState.terminal_change _

theorem reports_perform (ho : o.reads = false) :
    (o.perform launch c r).2.reports = r.reports := by
  cases o with
  | stage a => exact RunState.reports_change _
  | start a =>
    simp only [Operation.perform]
    split <;> rfl
  | move a =>
    by_cases hfile : r.files.isFile (c.resultFile a) = true
    · rw [perform_move_of_isFile hfile]
      exact RunState.reports_change _
    · rw [perform_move_of_not_isFile hfile]
  | retitle a =>
    by_cases hmoved : r.moved = some a
    · rw [perform_retitle_of_moved hmoved]
      exact RunState.reports_change _
    · rw [perform_retitle_of_not_moved hmoved]
  | read a => cases ho
  | summarise => rfl
  | delete a => exact RunState.reports_change _

/-! ### Operations that succeed -/

theorem performAll_cons_eq_none : performAll launch c (o :: os) r = (none, next) ↔
    ∃ mid, o.perform launch c r = (none, mid) ∧ performAll launch c os mid = (none, next) := by
  rw [← List.singleton_append, performAll_append_eq_none, performAll_singleton]

theorem perform_stage_eq_none (h : (Operation.stage a).perform launch c r = (none, next)) :
    ∃ files content executable, next = { r with files := files } ∧
      r.files.Follows (c.sourceImage a) ∧
        r.files.at? (c.sourceImage a) = some (.file content executable) ∧
          r.files.putFile (c.stagedImage a) content executable = .ok files := by
  obtain ⟨files, hfiles, rfl⟩ := RunState.change_eq_none h
  obtain ⟨content, executable, hsource⟩ :=
    (FileSystem.copy_eq_ok_iff (sourceImage_ne_stagedImage c a _)).mp
      (mapError_eq_ok_iff.mp hfiles)
  exact ⟨files, content, executable, rfl, hsource⟩

theorem perform_start_eq_none (h : (Operation.start a).perform launch c r = (none, next)) :
    ∃ run, launch (c.hostPath a) (c.runDirectory a) r.files = .ok run ∧
      run.status.isSuccess = true ∧ next.files = run.files := by
  cases hlaunch : launch (c.hostPath a) (c.runDirectory a) r.files with
  | error fault =>
    rw [perform_start_of_error hlaunch] at h
    cases h
  | ok run =>
    rw [perform_start_of_ok hlaunch] at h
    by_cases hsuccess : run.status.isSuccess = true
    · rw [if_pos hsuccess] at h
      cases h
      exact ⟨run, rfl, hsuccess, rfl⟩
    · rw [if_neg hsuccess] at h
      cases h

theorem perform_move_eq_none (hfile : r.files.isFile (c.resultFile a) = true)
    (h : (Operation.move a).perform launch c r = (none, next)) :
    next.moved = some a ∧ ∃ content, r.files.read (c.resultFile a) = .ok content ∧
      next.files.read (c.relocatedReport a) = .ok content := by
  rw [perform_move_of_isFile hfile] at h
  obtain ⟨files, hfiles, rfl⟩ := RunState.change_eq_none h
  obtain ⟨content, hcontent, -, hmoved⟩ := FileSystem.read_move
    (resultFile_ne_relocatedReport c a r.files.current) (mapError_eq_ok_iff.mp hfiles)
  exact ⟨rfl, content, hcontent, hmoved⟩

theorem performAll_relocate_eq_none
    (h : performAll launch c [.move a, .retitle a] r = (none, next)) :
    r.files.isFile (c.resultFile a) = false ∧ next.files = r.files ∨
      ∃ content document retitled, r.files.read (c.resultFile a) = .ok content ∧
        Text.ofBytes? content = some document ∧
          Reports.retitle a.title.toList document = .ok retitled ∧
            next.files.at? (c.resultFile a) = none ∧
              next.files.read (c.relocatedReport a) = .ok (Text.bytes retitled) := by
  have hne := resultFile_ne_relocatedReport c a r.files.current
  obtain ⟨moved, hmove, hretitle⟩ := performAll_cons_eq_none.mp h
  rw [performAll_singleton] at hretitle
  by_cases hfile : r.files.isFile (c.resultFile a) = true
  · right
    rw [perform_move_of_isFile hfile] at hmove
    obtain ⟨files, hfiles, rfl⟩ := RunState.change_eq_none hmove
    rw [perform_retitle_of_moved rfl] at hretitle
    obtain ⟨files', hfiles', rfl⟩ := RunState.change_eq_none hretitle
    exact read_retitleFile_move hne (mapError_eq_ok_iff.mp hfiles) (mapError_eq_ok_iff.mp hfiles')
  · left
    rw [perform_move_of_not_isFile hfile] at hmove
    cases hmove
    cases hretitle
    exact ⟨by simpa using hfile, rfl⟩

theorem perform_read_eq_none (h : (Operation.read a).perform launch c r = (none, next)) :
    r.files.isFile (c.relocatedReport a) = false ∧ next = r ∨
      r.files.isFile (c.relocatedReport a) = true ∧ ∃ report,
        Reports.Report.load r.files (c.relocatedReport a) = .ok report ∧
          next = { r with reports := r.reports ++ [(a, report)] } := by
  by_cases hfile : r.files.isFile (c.relocatedReport a) = true
  · cases hload : Reports.Report.load r.files (c.relocatedReport a) with
    | error error =>
      rw [perform_read_of_error hfile hload] at h
      cases h
    | ok report =>
      rw [perform_read_of_ok hfile hload] at h
      cases h
      exact .inr ⟨hfile, report, rfl, rfl⟩
  · rw [perform_read_of_not_isFile hfile] at h
    cases h
    exact .inl ⟨by simpa using hfile, rfl⟩

theorem perform_summarise_eq_none (h : Operation.summarise.perform launch c r = (none, next)) :
    ∃ tally, (writeSummary r.merged).run r.terminal = (.ok tally, next.terminal) ∧
      next.files = r.files := by
  cases hwrite : (writeSummary r.merged).run r.terminal with
  | mk answer terminal =>
    cases answer with
    | ok tally =>
      rw [perform_summarise_of_ok hwrite] at h
      cases h
      exact ⟨tally, rfl, rfl⟩
    | error fault =>
      rw [perform_summarise_of_error hwrite] at h
      cases h

variable {failure? : Option Failure}

theorem performAll_induction {P : RunState → Prop}
    (h : performAll launch c os r = (failure?, next)) (hr : P r)
    (hstep : ∀ o ∈ os, ∀ r, P r → P (o.perform launch c r).2) : P next := by
  induction os generalizing r with
  | nil =>
    cases h
    exact hr
  | cons o os ih =>
    obtain ⟨ho, hos⟩ := List.forall_mem_cons.mp hstep
    have hnext := ho r hr
    rw [performAll] at h
    cases hperform : o.perform launch c r with
    | mk stop? mid =>
      rw [hperform] at h hnext
      cases stop? with
      | none => exact ih h hnext hos
      | some failure =>
        cases h
        exact hnext

theorem terminal_performAll (h : performAll launch c os r = (failure?, next))
    (hos : .summarise ∉ os) : next.terminal = r.terminal := by
  refine performAll_induction (P := fun mid => mid.terminal = r.terminal) h rfl ?_
  intro o ho mid hmid
  rw [terminal_perform (ne_of_mem_of_not_mem ho hos), hmid]

theorem reports_performAll (h : performAll launch c os r = (failure?, next))
    (hos : ∀ o ∈ os, o.reads = false) : next.reports = r.reports := by
  refine performAll_induction (P := fun mid => mid.reports = r.reports) h rfl ?_
  intro o ho mid hmid
  rw [reports_perform (hos o ho), hmid]

theorem changesOnly_performAll (h : performAll launch c os r = (failure?, next))
    (hos : ∀ o ∈ os, o.startsHost = false) :
    FileSystem.ChangesOnly ((os.flatMap Operation.places).map
      (Place.location c r.files.current)) r.files next.files := by
  refine performAll_induction (P := fun mid => FileSystem.ChangesOnly _ _ mid.files) h
    (.refl _ _) ?_
  intro o ho mid hmid
  have hstep : FileSystem.ChangesOnly _ mid.files (o.perform launch c mid).2.files :=
    changesOnly_perform (hos o ho)
  rw [hmid.directories.current] at hstep
  refine (hmid.trans hstep).mono ?_
  intro l hl
  rcases List.mem_append.mp hl with hl | hl
  · exact hl
  · obtain ⟨p, hp, rfl⟩ := List.mem_map.mp hl
    exact List.mem_map_of_mem (List.mem_flatMap_of_mem ho hp)

/-- What stands at a place that is none of the operations' stays. -/
theorem at?_performAll {p : Place} (h : performAll launch c os r = (failure?, next))
    (hos : ∀ o ∈ os, o.startsHost = false) (hp : ∀ o ∈ os, p ∉ o.places) :
    next.files.at? (p.path c) = r.files.at? (p.path c) := by
  have hchanges := changesOnly_performAll h hos
  rw [FileSystem.at?, FileSystem.at?, hchanges.directories.current]
  refine hchanges.elsewhere _ ?_
  intro hmem
  obtain ⟨q, hq, heq⟩ := List.mem_map.mp hmem
  obtain ⟨o, ho, hq⟩ := List.mem_flatMap.mp hq
  rw [Place.location_inj heq] at hq
  exact hp o ho hq

end
end Bench
end FirmwareTests
