import FirmwareTests.Proofs.Bench.Effects
import FirmwareTests.Proofs.Files.Agreement

/-!
# Runs from states that differ in reports

Operations other than the start of a host treat two states alike that differ in the content
of reports at most: they succeed from both or fail alike from both. Only where a report is
moved or read does its content matter.
-/

namespace FirmwareTests
namespace Bench

open Files Console FileSystem

def Place.reports : List Place :=
  [.resultFile .ia32, .resultFile .x64, .relocatedReport .ia32, .relocatedReport .x64]

def reportPlaces (c : Config) (current : Location) : List Location :=
  Place.reports.map (Place.location c current)

def ReportsAside (c : Config) (current : Location) : Prop :=
  ∀ a, ∀ l ∈ way current (c.sourceImage a) ++ way current (c.stagedImage a),
    l ∉ reportPlaces c current

/-- States that differ in the content of reports at most. -/
structure Alike (c : Config) (current : Location) (r r' : RunState) : Prop where
  here : r.files.current = current
  files : SameExcept (reportPlaces c current) r.files r'.files
  terminal : r'.terminal = r.terminal
  moved : r'.moved = r.moved
  reports : r'.reports = r.reports

/-- Operations that succeed from both states, or fail alike. -/
inductive PerformAlike (launch : Launcher) (c : Config) (os : List Operation) (r r' : RunState)
    (Q : RunState → RunState → Prop) : Prop
  | ok {next next' : RunState} (h : performAll launch c os r = (none, next))
      (h' : performAll launch c os r' = (none, next')) (hnext : Q next next')
  | error {failure : Failure} {next next' : RunState}
      (h : performAll launch c os r = (some failure, next))
      (h' : performAll launch c os r' = (some failure, next'))
      (hterminal : next'.terminal = next.terminal)

section

variable {launch : Launcher} {c : Config} {current : Location} {o : Operation}
variable {os us : List Operation} {r r' next : RunState} {a : Arch}

theorem PerformAlike.single_ok {next' : RunState} {Q : RunState → RunState → Prop}
    (h : o.perform launch c r = (none, next)) (h' : o.perform launch c r' = (none, next'))
    (hnext : Q next next') : PerformAlike launch c [o] r r' Q :=
  .ok ((performAll_singleton o).trans h) ((performAll_singleton o).trans h') hnext

theorem PerformAlike.single_error {failure : Failure} {next' : RunState}
    {Q : RunState → RunState → Prop} (h : o.perform launch c r = (some failure, next))
    (h' : o.perform launch c r' = (some failure, next'))
    (hterminal : next'.terminal = next.terminal) : PerformAlike launch c [o] r r' Q :=
  .error ((performAll_singleton o).trans h) ((performAll_singleton o).trans h') hterminal

theorem PerformAlike.append {Q Q' : RunState → RunState → Prop}
    (h : PerformAlike launch c os r r' Q) (us : List Operation)
    (hus : ∀ next next', performAll launch c os r = (none, next) →
      performAll launch c os r' = (none, next') → Q next next' →
        PerformAlike launch c us next next' Q') : PerformAlike launch c (os ++ us) r r' Q' := by
  cases h with
  | ok h h' hnext =>
    cases hus _ _ h h' hnext with
    | ok hrest hrest' hlast =>
      exact .ok (performAll_append_eq_none.mpr ⟨_, h, hrest⟩)
        (performAll_append_eq_none.mpr ⟨_, h', hrest'⟩) hlast
    | error hrest hrest' hterminal =>
      exact .error (performAll_append_eq_some.mpr (.inr ⟨_, h, hrest⟩))
        (performAll_append_eq_some.mpr (.inr ⟨_, h', hrest'⟩)) hterminal
  | error h h' hterminal =>
    exact .error (performAll_append_eq_some.mpr (.inl h))
      (performAll_append_eq_some.mpr (.inl h')) hterminal

theorem PerformAlike.strengthen {Q Q' : RunState → RunState → Prop}
    (h : PerformAlike launch c os r r' Q)
    (hQ : ∀ next next', performAll launch c os r = (none, next) →
      performAll launch c os r' = (none, next') → Q next next' → Q' next next') :
    PerformAlike launch c os r r' Q' := by
  cases h with
  | ok h h' hnext => exact .ok h h' (hQ _ _ h h' hnext)
  | error h h' hterminal => exact .error h h' hterminal

/-! ### Places and ways -/

theorem location_mem_reportPlaces {p : Place} :
    p.location c current ∈ reportPlaces c current ↔ p ∈ Place.reports := by
  constructor
  · intro hmem
    obtain ⟨q, hq, heq⟩ := List.mem_map.mp hmem
    rw [← Place.location_inj heq]
    exact hq
  · intro hp
    exact List.mem_map_of_mem hp

theorem stagedImage_notMem (c : Config) (current : Location) (a : Arch) :
    destination current (c.stagedImage a) ∉ reportPlaces c current :=
  (location_mem_reportPlaces (p := .stagedImage a)).not.mpr (by cases a <;> decide)

theorem sourceImage_notMem (c : Config) (current : Location) (a : Arch) :
    destination current (c.sourceImage a) ∉ reportPlaces c current :=
  (location_mem_reportPlaces (p := .sourceImage a)).not.mpr (by cases a <;> decide)

theorem resultFile_mem (c : Config) (current : Location) (a : Arch) :
    destination current (c.resultFile a) ∈ reportPlaces c current :=
  (location_mem_reportPlaces (p := .resultFile a)).mpr (by cases a <;> decide)

theorem relocatedReport_mem (c : Config) (current : Location) (a : Arch) :
    destination current (c.relocatedReport a) ∈ reportPlaces c current :=
  (location_mem_reportPlaces (p := .relocatedReport a)).mpr (by cases a <;> decide)

theorem mem_way_resultFile {l : Location} :
    l ∈ way current (c.resultFile a) ↔ l ∈ way current (c.stagedImage a) := by
  have hreport : IsName resultFileName := Place.isName_fileName (.resultFile a)
  have himage : IsName stagedImageName := Place.isName_fileName (.stagedImage a)
  rw [Config.resultFile, mem_way_join _ _ hreport, Config.stagedImage, mem_way_join _ _ himage]

/-- What lies on the way of a relocated report lies on the way of an image. -/
theorem mem_way_stagedImage {l : Location} (hl : l ∈ way current (c.relocatedReport a)) :
    l ∈ way current (c.stagedImage a) := by
  have hreport : IsName a.reportName := Place.isName_fileName (.relocatedReport a)
  have himage : IsName stagedImageName := Place.isName_fileName (.stagedImage a)
  rw [Config.relocatedReport, mem_way_join _ _ hreport] at hl
  rw [Config.stagedImage, mem_way_join _ _ himage, Config.runDirectory,
    mem_way_join _ _ (isName_name a)]
  exact .inl hl

/-! ### Operations on alike states -/

theorem performAlike_change {before before' : RunState}
    {changed changed' : Except Failure FileSystem} (ho : o.startsHost = false)
    (hbefore : Alike c current before before') (hfiles : before.files = r.files)
    (h : o.perform launch c r = before.change changed)
    (h' : o.perform launch c r' = before'.change changed')
    (hagree : Agree (SameExcept (reportPlaces c current)) changed changed') :
    PerformAlike launch c [o] r r' (Alike c current) := by
  cases hagree with
  | ok hsame =>
    rw [RunState.change_ok] at h h'
    have hchanges : ChangesOnly _ r.files (o.perform launch c r).2.files := changesOnly_perform ho
    have hcurrent := hchanges.directories.current
    rw [h, ← hfiles, hbefore.here] at hcurrent
    exact .single_ok h h' ⟨hcurrent, hsame, hbefore.terminal, hbefore.moved, hbefore.reports⟩
  | error failure =>
    rw [RunState.change_error] at h h'
    exact .single_error h h' hbefore.terminal

theorem performAlike_stage (haside : ReportsAside c current) (h : Alike c current r r')
    (a : Arch) : PerformAlike launch c [.stage a] r r' (Alike c current) := by
  have hway := List.forall_mem_append.mp (haside a)
  refine performAlike_change rfl h rfl rfl rfl (Agree.mapError ?_ _)
  have hhere := h.here
  subst hhere
  exact h.files.copy hway.1 (sourceImage_notMem c _ a) hway.2

theorem performAlike_delete (haside : ReportsAside c current) (h : Alike c current r r')
    (a : Arch) : PerformAlike launch c [.delete a] r r' (Alike c current) := by
  have hway := List.forall_mem_append.mp (haside a)
  refine performAlike_change rfl h rfl rfl rfl (Agree.mapError ?_ _)
  have hhere := h.here
  subst hhere
  exact h.files.remove hway.2 (stagedImage_notMem c _ a)

theorem performAlike_summarise (h : Alike c current r r') :
    PerformAlike launch c [.summarise] r r' (Alike c current) := by
  have hmerged : r'.merged = r.merged := by rw [RunState.merged, RunState.merged, h.reports]
  cases hwrite : (writeSummary r.merged).run r.terminal with
  | mk answer terminal =>
    have hwrite' : (writeSummary r'.merged).run r'.terminal = (answer, terminal) := by
      rw [hmerged, h.terminal, hwrite]
    cases answer with
    | ok tally =>
      exact .single_ok (perform_summarise_of_ok hwrite) (perform_summarise_of_ok hwrite')
        ⟨h.here, h.files, rfl, h.moved, h.reports⟩
    | error fault =>
      exact .single_error (perform_summarise_of_error hwrite)
        (perform_summarise_of_error hwrite') rfl

theorem performAlike_read (h : Alike c current r r')
    (hcontent : r'.files.content? (c.relocatedReport a) =
      r.files.content? (c.relocatedReport a)) :
    PerformAlike launch c [.read a] r r' fun next next' =>
      Alike c current next next' ∧ next.files = r.files ∧ next'.files = r'.files := by
  have hfile' : r'.files.isFile (c.relocatedReport a) = r.files.isFile (c.relocatedReport a) := by
    rw [isFile_eq_isSome_content?, isFile_eq_isSome_content?, hcontent]
  by_cases hfile : r.files.isFile (c.relocatedReport a) = true
  · rw [hfile] at hfile'
    have hsame := load_congr hcontent hfile
    cases hload : Reports.Report.load r.files (c.relocatedReport a) with
    | error error =>
      rw [hload] at hsame
      exact .single_error (perform_read_of_error hfile hload) (perform_read_of_error hfile' hsame)
        h.terminal
    | ok loaded =>
      rw [hload] at hsame
      exact .single_ok (perform_read_of_ok hfile hload) (perform_read_of_ok hfile' hsame)
        ⟨⟨h.here, h.files, h.terminal, h.moved, by rw [h.reports]⟩, rfl, rfl⟩
  · have hperform : (Operation.read a).perform launch c r = _ := perform_read_of_not_isFile hfile
    rw [← hfile'] at hfile
    exact .single_ok hperform (perform_read_of_not_isFile hfile) ⟨h, rfl, rfl⟩

/-- A report is moved and retitled alike when there is none, or when there is one with the
same content. -/
theorem performAlike_move_retitle (haside : ReportsAside c current) (h : Alike c current r r')
    (hresult : r'.files.content? (c.resultFile a) = r.files.content? (c.resultFile a)) :
    PerformAlike launch c [.move a, .retitle a] r r' (Alike c current) := by
  have hhere := h.here
  subst hhere
  have hway : ∀ l ∈ way r.files.current (c.relocatedReport a),
      l ∉ reportPlaces c r.files.current :=
    fun l hl => haside a l (List.mem_append_right _ (mem_way_stagedImage hl))
  have hfile' : r'.files.isFile (c.resultFile a) = r.files.isFile (c.resultFile a) := by
    rw [isFile_eq_isSome_content?, isFile_eq_isSome_content?, hresult]
  by_cases hfile : r.files.isFile (c.resultFile a) = true
  · rw [hfile] at hfile'
    have hbefore : Alike c r.files.current { r with moved := some a }
        { r' with moved := some a } := ⟨rfl, h.files, h.terminal, rfl, h.reports⟩
    have hmove : PerformAlike launch c [.move a] r r' (Alike c r.files.current) := by
      refine performAlike_change rfl hbefore rfl
        (perform_move_of_isFile hfile) (perform_move_of_isFile hfile') (Agree.mapError ?_ _)
      exact h.files.move (resultFile_ne_relocatedReport c a _) hfile hfile' hway
        (relocatedReport_mem c _ a)
    refine hmove.append [.retitle a] ?_
    intro mid mid' hmid hmid' halike
    rw [performAll_singleton] at hmid hmid'
    obtain ⟨hmoved, content, hread, hthere⟩ := perform_move_eq_none hfile hmid
    obtain ⟨hmoved', content', hread', hthere'⟩ := perform_move_eq_none hfile' hmid'
    have hcontent : mid'.files.content? (c.relocatedReport a) =
        mid.files.content? (c.relocatedReport a) := by
      rw [content?_eq_some_iff.mpr hthere, content?_eq_some_iff.mpr hthere',
        ← content?_eq_some_iff.mpr hread, ← content?_eq_some_iff.mpr hread', hresult]
    refine performAlike_change rfl halike rfl (perform_retitle_of_moved hmoved)
      (perform_retitle_of_moved hmoved') (Agree.mapError ?_ _)
    refine halike.files.retitleFile hcontent (isFile_of_read hthere) ?_ ?_
    · rw [halike.here]
      exact hway
    · rw [halike.here]
      exact relocatedReport_mem c _ a
  · rw [← hfile'] at hfile
    exact .ok (performAll_relocate_of_not_isFile (hfile' ▸ hfile))
      (performAll_relocate_of_not_isFile hfile) ⟨rfl, h.files, h.terminal, rfl, h.reports⟩

/-- The content that a relocated report has when reports are relocated, by what was in the
place of the host and what was relocated before. -/
def relocatedContent? (a : Arch) (result? before? : Option (List UInt8)) :
    Option (List UInt8) :=
  result?.elim before? fun content => do
    let document ← Text.ofBytes? content
    let retitled ← (Reports.retitle a.title.toList document).toOption
    return Text.bytes retitled

theorem content?_relocate (h : performAll launch c [.move a, .retitle a] r = (none, next)) :
    next.files.content? (c.relocatedReport a) =
      relocatedContent? a (r.files.content? (c.resultFile a))
        (r.files.content? (c.relocatedReport a)) := by
  rcases performAll_relocate_eq_none h with ⟨hnone, hfiles⟩ | hmoved
  · have hcontent : r.files.content? (c.resultFile a) = none := by
      simpa [isFile_eq_isSome_content?] using hnone
    rw [hfiles, hcontent, relocatedContent?, Option.elim_none]
  · obtain ⟨content, document, retitled, hread, htext, hretitled, -, hthere⟩ := hmoved
    rw [content?_eq_some_iff.mpr hread, content?_eq_some_iff.mpr hthere]
    simp [relocatedContent?, htext, hretitled, Except.toOption]

theorem performAlike_relocate (haside : ReportsAside c current) (h : Alike c current r r')
    (hresult : r'.files.content? (c.resultFile a) = r.files.content? (c.resultFile a))
    (hrelocated : r.files.content? (c.resultFile a) = none →
      r'.files.content? (c.relocatedReport a) = r.files.content? (c.relocatedReport a)) :
    PerformAlike launch c [.move a, .retitle a] r r' fun next next' =>
      Alike c current next next' ∧ next'.files.content? (c.relocatedReport a) =
        next.files.content? (c.relocatedReport a) := by
  refine (performAlike_move_retitle haside h hresult).strengthen ?_
  intro next next' hperform hperform' halike
  refine ⟨halike, ?_⟩
  rw [content?_relocate hperform, content?_relocate hperform', hresult]
  -- what was relocated before matters only when there is nothing to relocate
  cases hcontent : r.files.content? (c.resultFile a) with
  | none => exact hrelocated hcontent
  | some content => rw [relocatedContent?, relocatedContent?, Option.elim_some, Option.elim_some]

/-! ### Rows of operations on alike states -/

theorem content?_performAll {failure? : Option Failure} {p : Place}
    (h : performAll launch c os r = (failure?, next)) (hos : ∀ o ∈ os, o.startsHost = false)
    (hp : ∀ o ∈ os, p ∉ o.places) :
    next.files.content? (p.path c) = r.files.content? (p.path c) :=
  content?_congr (changesOnly_performAll h hos).directories (at?_performAll h hos hp)

theorem sameContent_performAll {failure? failure?' : Option Failure} {next' : RunState} {p : Place}
    (h : performAll launch c os r = (failure?, next))
    (h' : performAll launch c os r' = (failure?', next'))
    (hos : ∀ o ∈ os, o.startsHost = false) (hp : ∀ o ∈ os, p ∉ o.places)
    (hsame : r'.files.content? (p.path c) = r.files.content? (p.path c)) :
    next'.files.content? (p.path c) = next.files.content? (p.path c) := by
  rw [content?_performAll h' hos hp, content?_performAll h hos hp, hsame]

theorem performAlike_stages (haside : ReportsAside c current) (h : Alike c current r r') :
    PerformAlike launch c [.stage .ia32, .stage .x64] r r' (Alike c current) :=
  (performAlike_stage haside h .ia32).append [.stage .x64] fun _ _ _ _ hnext =>
    performAlike_stage haside hnext .x64

/-- Reports are relocated alike when they have the same content where they matter. -/
theorem performAlike_relocateBoth (haside : ReportsAside c current) (h : Alike c current r r')
    (hresult : ∀ a, r'.files.content? (c.resultFile a) = r.files.content? (c.resultFile a))
    (hrelocated : ∀ a, r.files.content? (c.resultFile a) = none →
      r'.files.content? (c.relocatedReport a) = r.files.content? (c.relocatedReport a)) :
    PerformAlike launch c ([.move .ia32, .retitle .ia32] ++ [.move .x64, .retitle .x64]) r r'
      fun next next' => Alike c current next next' ∧ ∀ a,
        next'.files.content? (c.relocatedReport a) =
          next.files.content? (c.relocatedReport a) := by
  refine (performAlike_relocate haside h (hresult .ia32) (hrelocated .ia32)).append _ ?_
  rintro mid mid' hmid hmid' ⟨halike, h₃₂⟩
  have hresult₆₄ := sameContent_performAll (p := .resultFile .x64) hmid hmid' (by decide)
    (by decide) (hresult .x64)
  have hrelocated₆₄ : mid.files.content? (c.resultFile .x64) = none →
      mid'.files.content? (c.relocatedReport .x64) =
        mid.files.content? (c.relocatedReport .x64) := by
    intro hnone
    have hkept := content?_performAll (p := .resultFile .x64) hmid (by decide) (by decide)
    exact sameContent_performAll (p := .relocatedReport .x64) hmid hmid' (by decide) (by decide)
      (hrelocated .x64 (hkept.symm.trans hnone))
  refine (performAlike_relocate haside halike hresult₆₄ hrelocated₆₄).strengthen ?_
  rintro next next' hnext hnext' ⟨halike', h₆₄⟩
  refine ⟨halike', ?_⟩
  intro a
  cases a with
  | ia32 =>
    exact sameContent_performAll (p := .relocatedReport .ia32) hnext hnext' (by decide) (by decide)
      h₃₂
  | x64 => exact h₆₄

theorem performAlike_closing (haside : ReportsAside c current) (h : Alike c current r r')
    (hresult : ∀ a, r'.files.content? (c.resultFile a) = r.files.content? (c.resultFile a))
    (hrelocated : ∀ a, r.files.content? (c.resultFile a) = none →
      r'.files.content? (c.relocatedReport a) = r.files.content? (c.relocatedReport a)) :
    PerformAlike launch c Operation.closing r r' (Alike c current) := by
  have hclosing : Operation.closing = ([Operation.move .ia32, .retitle .ia32] ++
      [Operation.move .x64, .retitle .x64]) ++ ([Operation.read .ia32] ++ ([Operation.read .x64] ++
        ([Operation.summarise] ++ ([Operation.delete .ia32] ++ [Operation.delete .x64])))) := rfl
  rw [hclosing]
  refine (performAlike_relocateBoth haside h hresult hrelocated).append _ ?_
  rintro r₁ r₁' - - ⟨h₁, hsame⟩
  refine (performAlike_read h₁ (hsame .ia32)).append _ ?_
  rintro r₂ r₂' - - ⟨h₂, hfiles, hfiles'⟩
  rw [← hfiles, ← hfiles'] at hsame
  refine (performAlike_read h₂ (hsame .x64)).append _ ?_
  rintro r₃ r₃' - - ⟨h₃, -⟩
  refine (performAlike_summarise h₃).append _ ?_
  rintro r₄ r₄' - - h₄
  refine (performAlike_delete haside h₄ .ia32).append _ ?_
  rintro r₅ r₅' - - h₅
  exact performAlike_delete haside h₅ .x64

end

end Bench
end FirmwareTests
