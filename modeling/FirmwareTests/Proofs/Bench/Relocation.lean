import FirmwareTests.Proofs.Bench.Effects

/-!
# Relocating reports

A report is relocated in two steps: it is moved out of its run directory, and then given
its title. Either step may fail, and the first failure ends the loop over the architectures.
Wherever that is, no report is lost: it is still where the host wrote it, or it has been moved
and titled, or it has been moved and is as it was, and then the failure says so.
-/

namespace FirmwareTests
namespace Reports

open Files

def RetitleFileError.path : RetitleFileError → String
  | unreadable path _ => path
  | refused path _ => path
  | unwritable path _ => path

/-- Retitling fails about the report in the file that was to be retitled. -/
theorem path_of_retitleFile {fs : FileSystem} {path title : String} {error : RetitleFileError}
    (h : retitleFile fs path title = .error error) : error.path = path := by
  unfold retitleFile at h
  rcases of_mapError_bind_eq_error h with ⟨fault, rfl⟩ | ⟨document, h⟩
  · rfl
  · rcases of_mapError_bind_eq_error h with ⟨refusal, rfl⟩ | ⟨retitled, h⟩
    · rfl
    · obtain ⟨fault, rfl⟩ := of_mapError_eq_error h
      rfl

end Reports

namespace Bench

open Files Console

/-! ### Titles -/

def retitleReport (path title : String) : BenchM Unit :=
  changeFiles fun fs => (Reports.retitleFile fs path title).mapError .retitleReport

/-- What giving a title does to the files: the report is replaced as a whole, or nothing is. -/
structure Retitles (path title : String) (fs fs' : FileSystem) (result : Except Failure Unit) :
    Prop where
  ok : result = .ok () → ∃ document retitled, fs.readText path = .ok document ∧
    Reports.retitle title.toList document = .ok retitled ∧
      fs'.read path = .ok (Text.bytes retitled)
  error : ∀ failure, result = .error failure → fs' = fs
  elsewhere : FileSystem.ChangesOnly [destination fs.current path] fs fs'

theorem retitles_retitleReport (path title : String) (s : Session) :
    Retitles path title s.files ((retitleReport path title).run s).2.files
      ((retitleReport path title).run s).1 := by
  rw [retitleReport, run_changeFiles]
  cases hretitle : Reports.retitleFile s.files path title with
  | error error => exact ⟨nofun, fun _ _ => rfl, .refl _ _⟩
  | ok files =>
    refine ⟨fun _ => ?_, nofun, changesOnly_retitleFile hretitle⟩
    obtain ⟨document, retitled, hdocument, hretitled, hput⟩ := retitleFile_eq_ok_iff.mp hretitle
    exact ⟨document, retitled, hdocument, hretitled, FileSystem.read_putFile hput⟩

/-! ### One architecture -/

/-- What relocating the report of an architecture can come to: there is none, it cannot be
moved, it is moved and cannot be retitled, or it is moved and retitled. -/
inductive Relocation (c : Config) (a : Arch) (fs : FileSystem) :
    Except Failure Unit → FileSystem → Prop where
  | skipped (hfile : fs.isFile (c.resultFile a) = false) : Relocation c a fs (.ok ()) fs
  | kept (fault : Fault) (hfile : fs.isFile (c.resultFile a) = true)
      (hmove : fs.move (c.resultFile a) (c.relocatedReport a) = .error fault) :
      Relocation c a fs
        (.error (.moveReport (c.resultFile a) (c.relocatedReport a) fault)) fs
  | moved (error : Reports.RetitleFileError) {moved : FileSystem}
      (hmove : fs.move (c.resultFile a) (c.relocatedReport a) = .ok moved)
      (hretitle : Reports.retitleFile moved (c.relocatedReport a) a.title = .error error) :
      Relocation c a fs (.error (.retitleReport error)) moved
  | relocated {moved fs' : FileSystem}
      (hmove : fs.move (c.resultFile a) (c.relocatedReport a) = .ok moved)
      (hretitle : Reports.retitleFile moved (c.relocatedReport a) a.title = .ok fs') :
      Relocation c a fs (.ok ()) fs'

section

variable {c : Config} {a b : Arch} {fs mid fs' : FileSystem} {result : Except Failure Unit}
variable {failure : Failure} {content : List UInt8}

theorem relocation_performAll {launch : Launcher} {r next : RunState} {failure? : Option Failure}
    (h : performAll launch c [.move a, .retitle a] r = (failure?, next)) :
    Relocation c a r.files (failure?.elim (.ok ()) .error) next.files := by
  cases hfile : r.files.isFile (c.resultFile a) with
  | false =>
    rw [performAll_relocate_of_not_isFile (by simp [hfile])] at h
    cases h
    exact .skipped hfile
  | true =>
    rw [performAll, perform_move_of_isFile hfile] at h
    cases hmove : r.files.move (c.resultFile a) (c.relocatedReport a) with
    | error fault =>
      rw [hmove] at h
      cases h
      exact .kept fault hfile hmove
    | ok moved =>
      rw [hmove] at h
      replace h : performAll launch c [.retitle a] { r with files := moved, moved := some a } =
        (failure?, next) := h
      rw [performAll_singleton, perform_retitle_of_moved rfl] at h
      cases hretitle : Reports.retitleFile moved (c.relocatedReport a) a.title with
      | error error =>
        rw [hretitle] at h
        cases h
        exact .moved error hmove hretitle
      | ok files =>
        rw [hretitle] at h
        cases h
        exact .relocated hmove hretitle

theorem relocation_relocateReport {s s' : Session}
    (h : (relocateReport c a).run s = (result, s')) : Relocation c a s.files result s'.files := by
  -- no host is started, so any launcher will do
  have hperforms : Performs (fun _ _ _ => .error .notFound) c (relocateReport c a) _ _ _ _ :=
    performs_relocateReport (shows_initial s) a
  cases result with
  | ok _ =>
    obtain ⟨next, hperform, hshows, -⟩ := hperforms.of_run_ok h
    rw [hshows.files]
    exact relocation_performAll hperform
  | error failure =>
    obtain ⟨next, hperform, hshows⟩ := hperforms.of_run_error h
    rw [hshows.files]
    exact relocation_performAll hperform

/-- A report that was moved and retitled. -/
structure Relocated (c : Config) (a : Arch) (content : List UInt8) (fs : FileSystem) : Prop where
  gone : fs.at? (c.resultFile a) = none
  titled : ∃ document retitled, Text.ofBytes? content = some document ∧
    Reports.retitle a.title.toList document = .ok retitled ∧
      fs.read (c.relocatedReport a) = .ok (Text.bytes retitled)

/-- A report that was moved and not retitled. -/
structure Moved (c : Config) (a : Arch) (content : List UInt8) (fs : FileSystem) : Prop where
  gone : fs.at? (c.resultFile a) = none
  untitled : fs.read (c.relocatedReport a) = .ok content

/-- The directories, and the result file and the relocated report of an architecture, are as
they were. -/
structure Untouched (c : Config) (a : Arch) (fs fs' : FileSystem) : Prop where
  directories : FileSystem.SameDirectories fs fs'
  resultFile : fs'.at? (c.resultFile a) = fs.at? (c.resultFile a)
  relocatedReport : fs'.at? (c.relocatedReport a) = fs.at? (c.relocatedReport a)

/-- An architecture that is done with: its report was moved and retitled, if there is one. -/
structure Settled (c : Config) (a : Arch) (fs fs' : FileSystem) : Prop where
  relocated : ∀ content, fs.read (c.resultFile a) = .ok content → Relocated c a content fs'
  untouched : fs.isFile (c.resultFile a) = false → Untouched c a fs fs'

/-- The architecture that the loop has ended at, and how far it came with its report. -/
inductive FailedAt (c : Config) (a : Arch) (fs fs' : FileSystem) : Failure → Prop where
  | move (fault : Fault) (hfile : fs.isFile (c.resultFile a) = true)
      (h : Untouched c a fs fs') :
      FailedAt c a fs fs' (.moveReport (c.resultFile a) (c.relocatedReport a) fault)
  | retitle (error : Reports.RetitleFileError) (hpath : error.path = c.relocatedReport a)
      (content : List UInt8) (hread : fs.read (c.resultFile a) = .ok content)
      (h : Moved c a content fs') : FailedAt c a fs fs' (.retitleReport error)

theorem Untouched.refl (c : Config) (a : Arch) (fs : FileSystem) : Untouched c a fs fs :=
  ⟨.refl fs, rfl, rfl⟩

theorem Untouched.read_resultFile (h : Untouched c a fs fs') :
    fs'.read (c.resultFile a) = .ok content ↔ fs.read (c.resultFile a) = .ok content :=
  FileSystem.read_eq_ok_congr h.directories h.resultFile

theorem Untouched.read_relocatedReport (h : Untouched c a fs fs') :
    fs'.read (c.relocatedReport a) = .ok content ↔
      fs.read (c.relocatedReport a) = .ok content :=
  FileSystem.read_eq_ok_congr h.directories h.relocatedReport

theorem Untouched.isFile_resultFile (h : Untouched c a fs fs') :
    fs'.isFile (c.resultFile a) = fs.isFile (c.resultFile a) :=
  FileSystem.isFile_congr h.directories h.resultFile

theorem Untouched.trans (h : Untouched c a fs mid) (h' : Untouched c a mid fs') :
    Untouched c a fs fs' :=
  ⟨h.directories.trans h'.directories, h'.resultFile.trans h.resultFile,
    h'.relocatedReport.trans h.relocatedReport⟩

theorem Relocated.of_untouched (h : Relocated c a content mid) (h' : Untouched c a mid fs') :
    Relocated c a content fs' := by
  obtain ⟨document, retitled, hdocument, hretitled, hread⟩ := h.titled
  exact ⟨h'.resultFile.trans h.gone, document, retitled, hdocument, hretitled,
    h'.read_relocatedReport.mpr hread⟩

theorem Settled.of_untouched (h : Settled c a fs mid) (h' : Untouched c a mid fs') :
    Settled c a fs fs' := by
  constructor
  · intro content hread
    exact (h.relocated content hread).of_untouched h'
  · intro hfile
    exact (h.untouched hfile).trans h'

theorem Untouched.settled (h : Untouched c a fs mid) (h' : Settled c a mid fs') :
    Settled c a fs fs' := by
  constructor
  · intro content hread
    exact h'.relocated content (h.read_resultFile.mpr hread)
  · intro hfile
    rw [← h.isFile_resultFile] at hfile
    exact h.trans (h'.untouched hfile)

theorem Untouched.failedAt (h : Untouched c a fs mid) (h' : FailedAt c a mid fs' failure) :
    FailedAt c a fs fs' failure := by
  cases h' with
  | move fault hfile h' =>
    rw [h.isFile_resultFile] at hfile
    exact .move fault hfile (h.trans h')
  | retitle error hpath content hread h' =>
    exact .retitle error hpath content (h.read_resultFile.mp hread) h'

/-- The places that relocating the report of an architecture works on. -/
def relocationPlaces (c : Config) (current : Location) (a : Arch) : List Location :=
  [destination current (c.relocatedReport a), destination current (c.resultFile a)]

theorem Relocation.changesOnly (h : Relocation c a fs result fs') :
    FileSystem.ChangesOnly (relocationPlaces c fs.current a) fs fs' := by
  have hne := resultFile_ne_relocatedReport c a fs.current
  cases h with
  | skipped hfile => exact .refl _ _
  | kept fault hfile hmove => exact .refl _ _
  | moved error hmove hretitle => exact FileSystem.changesOnly_move hne hmove
  | relocated hmove hretitle =>
    have hmoved := FileSystem.changesOnly_move hne hmove
    have htitled := changesOnly_retitleFile hretitle
    rw [hmoved.directories.current] at htitled
    refine hmoved.trans_self (htitled.mono fun l hl => ?_)
    rw [List.mem_singleton.mp hl]
    exact List.mem_cons_self

theorem location_notMem_relocationPlaces {p : Place} {current : Location}
    (hresult : p ≠ .resultFile a) (hrelocated : p ≠ .relocatedReport a) :
    p.location c current ∉ relocationPlaces c current a := by
  intro hmem
  rcases List.mem_cons.mp hmem with heq | hmem
  · exact hrelocated (Place.location_inj (q := .relocatedReport a) heq)
  · exact hresult (Place.location_inj (q := .resultFile a) (List.mem_singleton.mp hmem))

theorem Relocation.untouched (h : Relocation c a fs result fs') (hne : b ≠ a) :
    Untouched c b fs fs' := by
  have hkept (p : Place) (hresult : p ≠ .resultFile a) (hrelocated : p ≠ .relocatedReport a) :
      fs'.at? (p.path c) = fs.at? (p.path c) := by
    rw [FileSystem.at?, FileSystem.at?, h.changesOnly.directories.current]
    apply h.changesOnly.elsewhere
    exact location_notMem_relocationPlaces hresult hrelocated
  refine ⟨h.changesOnly.directories, ?_, ?_⟩
  · apply hkept (.resultFile b) <;> simp [hne]
  · apply hkept (.relocatedReport b) <;> simp [hne]

theorem Relocation.settled (h : Relocation c a fs (.ok ()) fs') : Settled c a fs fs' := by
  have hne := resultFile_ne_relocatedReport c a fs.current
  cases h with
  | skipped hfile =>
    refine ⟨fun content hread => ?_, fun _ => .refl c a fs⟩
    rw [FileSystem.isFile_of_read hread] at hfile
    cases hfile
  | relocated hmove hretitle =>
    obtain ⟨content, document, retitled, hread, hdocument, hretitled, hgone, hthere⟩ :=
      read_retitleFile_move hne hmove hretitle
    constructor
    case relocated =>
      intro content' hread'
      rw [hread] at hread'
      cases hread'
      exact ⟨hgone, document, retitled, hdocument, hretitled, hthere⟩
    case untouched =>
      intro hfile
      rw [FileSystem.isFile_of_read hread] at hfile
      cases hfile

theorem Relocation.failedAt (h : Relocation c a fs (.error failure) fs') :
    FailedAt c a fs fs' failure := by
  cases h with
  | kept fault hfile hmove => exact .move fault hfile (.refl c a fs)
  | moved error hmove hretitle =>
    obtain ⟨content, hread, hgone, hthere⟩ :=
      FileSystem.read_move (resultFile_ne_relocatedReport c a fs.current) hmove
    exact .retitle error (Reports.path_of_retitleFile hretitle) content hread ⟨hgone, hthere⟩

/-! ### Architectures in a row -/

/-- What relocating the reports of architectures in a row can come to: each is relocated in
turn, up to the first that fails. -/
inductive Relocations (c : Config) :
    List Arch → FileSystem → Except Failure Unit → FileSystem → Prop where
  | nil (fs : FileSystem) : Relocations c [] fs (.ok ()) fs
  | cons {a : Arch} {as : List Arch} {fs mid fs' : FileSystem} {result : Except Failure Unit}
      (h : Relocation c a fs (.ok ()) mid) (h' : Relocations c as mid result fs') :
      Relocations c (a :: as) fs result fs'
  | stop {a : Arch} {fs fs' : FileSystem} {failure : Failure} (as : List Arch)
      (h : Relocation c a fs (.error failure) fs') :
      Relocations c (a :: as) fs (.error failure) fs'

variable {as : List Arch}

theorem relocations_forM {s s' : Session}
    (h : (as.forM (relocateReport c)).run s = (result, s')) :
    Relocations c as s.files result s'.files := by
  induction as generalizing s with
  | nil =>
    obtain ⟨rfl, rfl⟩ := Prod.mk.inj h
    exact .nil s.files
  | cons a as ih =>
    change (relocateReport c a >>= fun _ => as.forM (relocateReport c)).run s = _ at h
    cases hrun : (relocateReport c a).run s with
    | mk first mid =>
      have hfirst := relocation_relocateReport hrun
      cases first with
      | ok _ =>
        rw [run_bind_ok hrun] at h
        exact .cons hfirst (ih h)
      | error failure =>
        rw [run_bind_error hrun] at h
        cases h
        exact .stop as hfirst

theorem Relocations.changesOnly (h : Relocations c as fs result fs') :
    FileSystem.ChangesOnly (as.flatMap (relocationPlaces c fs.current)) fs fs' := by
  induction h with
  | nil fs => exact .refl _ _
  | cons h _ ih =>
    rw [h.changesOnly.directories.current] at ih
    exact h.changesOnly.trans ih
  | stop as h => exact h.changesOnly.mono fun l hl => List.mem_append_left _ hl

theorem Relocations.untouched (h : Relocations c as fs result fs') (hb : b ∉ as) :
    Untouched c b fs fs' := by
  induction h with
  | nil fs => exact .refl c b fs
  | cons h _ ih =>
    exact (h.untouched (List.ne_of_not_mem_cons hb)).trans
      (ih (List.not_mem_of_not_mem_cons hb))
  | stop as h => exact h.untouched (List.ne_of_not_mem_cons hb)

/-- By induction on the row: either all are done with, or one has failed behind those that
are done with and before those that are not begun. -/
theorem Relocations.progress (h : Relocations c as fs result fs') (hnodup : as.Nodup) :
    (result = .ok () ∧ ∀ a ∈ as, Settled c a fs fs') ∨
      ∃ failure earlier a later, result = .error failure ∧ as = earlier ++ a :: later ∧
        (∀ b ∈ earlier, Settled c b fs fs') ∧ FailedAt c a fs fs' failure ∧
          ∀ b ∈ later, Untouched c b fs fs' := by
  induction h with
  | nil fs => exact .inl ⟨rfl, nofun⟩
  | @cons a as fs mid fs' result h h' ih =>
    obtain ⟨hfirst, hnodup⟩ := List.nodup_cons.mp hnodup
    have hdone : Settled c a fs fs' := h.settled.of_untouched (h'.untouched hfirst)
    have hbefore (b : Arch) (hb : b ∈ as) : Untouched c b fs mid :=
      h.untouched (ne_of_mem_of_not_mem hb hfirst)
    rcases ih hnodup with ⟨hresult, hall⟩ | ⟨failure, earlier, b, later, hresult, rfl, hfate⟩
    · left
      refine ⟨hresult, List.forall_mem_cons.mpr ⟨hdone, fun b hb => ?_⟩⟩
      exact (hbefore b hb).settled (hall b hb)
    · obtain ⟨hearlier, hfailed, hlater⟩ := hfate
      right
      refine ⟨failure, a :: earlier, b, later, hresult, rfl, ?_, ?_, ?_⟩
      · refine List.forall_mem_cons.mpr ⟨hdone, fun b' hb' => ?_⟩
        exact (hbefore b' (List.mem_append_left _ hb')).settled (hearlier b' hb')
      · exact (hbefore b (by simp)).failedAt hfailed
      · intro b' hb'
        exact (hbefore b' (by simp [hb'])).trans (hlater b' hb')
  | @stop a fs fs' failure as h =>
    obtain ⟨hfirst, -⟩ := List.nodup_cons.mp hnodup
    right
    refine ⟨failure, [], a, as, rfl, rfl, nofun, h.failedAt, fun b hb => ?_⟩
    exact h.untouched (ne_of_mem_of_not_mem hb hfirst)

/-! ### All architectures -/

/-- What relocating all reports does to the files, with any result. -/
structure LosesNoReport (c : Config) (fs fs' : FileSystem) (result : Except Failure Unit) :
    Prop where
  /-- A report is where it was, or moved and titled, or moved as it was, and then that is
  what the failure is about. -/
  kept : ∀ a content, fs.read (c.resultFile a) = .ok content →
    fs'.read (c.resultFile a) = .ok content ∨ Relocated c a content fs' ∨
      Moved c a content fs' ∧ ∃ error, result = .error (.retitleReport error) ∧
        error.path = c.relocatedReport a
  /-- Without a failure every report is moved and titled. -/
  ok : result = .ok () → ∀ a, Settled c a fs fs'
  /-- A failure has come at one architecture, behind the earlier ones and before the later. -/
  error : ∀ failure, result = .error failure → ∃ earlier a later,
    Arch.all = earlier ++ a :: later ∧ (∀ b ∈ earlier, Settled c b fs fs') ∧
      FailedAt c a fs fs' failure ∧ ∀ b ∈ later, Untouched c b fs fs'
  /-- Nothing but the result files and the relocated reports is changed. -/
  elsewhere : FileSystem.ChangesOnly (Arch.all.flatMap (relocationPlaces c fs.current)) fs fs'

theorem Arch.mem_all (a : Arch) : a ∈ Arch.all := by
  cases a <;> decide

theorem Relocations.losesNoReport (h : Relocations c Arch.all fs result fs') :
    LosesNoReport c fs fs' result := by
  have hprogress := h.progress (by decide)
  constructor
  case ok =>
    rintro rfl a
    rcases hprogress with ⟨-, hall⟩ | ⟨failure, earlier, b, later, hresult, -⟩
    · exact hall a (Arch.mem_all a)
    · cases hresult
  case error =>
    rintro failure rfl
    rcases hprogress with ⟨hresult, -⟩ | ⟨failure', earlier, b, later, hresult, hfate⟩
    · cases hresult
    · cases hresult
      exact ⟨earlier, b, later, hfate⟩
  case elsewhere => exact h.changesOnly
  case kept =>
    intro a content hread
    rcases hprogress with ⟨-, hall⟩ | ⟨failure, earlier, b, later, rfl, hsplit, hfate⟩
    · exact .inr (.inl ((hall a (Arch.mem_all a)).relocated content hread))
    · obtain ⟨hearlier, hfailed, hlater⟩ := hfate
      have hmem := Arch.mem_all a
      rw [hsplit, List.mem_append, List.mem_cons] at hmem
      rcases hmem with hmem | rfl | hmem
      · exact .inr (.inl ((hearlier a hmem).relocated content hread))
      · cases hfailed with
        | move fault _ huntouched => exact .inl (huntouched.read_resultFile.mpr hread)
        | retitle error hpath content' hread' hmoved =>
          rw [hread] at hread'
          cases hread'
          exact .inr (.inr ⟨hmoved, error, rfl, hpath⟩)
      · exact .inl ((hlater a hmem).read_resultFile.mpr hread)

/-- No report is lost by relocating reports, and no file by giving a title, whether that
succeeds or fails. -/
theorem relocateReports_losesNoReport (c : Config) (path title : String) (s : Session) :
    LosesNoReport c s.files ((relocateReports c).run s).2.files ((relocateReports c).run s).1 ∧
      Retitles path title s.files ((retitleReport path title).run s).2.files
        ((retitleReport path title).run s).1 :=
  ⟨(relocations_forM rfl).losesNoReport, retitles_retitleReport path title s⟩

/-- The small workspace with a report and with a text that is none. -/
def reportedSession : Session :=
  { sampleSession with
    files := { sampleFiles with
      entries := (["w", "IA32", "TestResults.xml"],
          .file (Text.bytes "<testsuite/>".toList) false) ::
        (["w", "X64", "TestResults.xml"], .file (Text.bytes "none".toList) false) ::
          sampleFiles.entries } }

/-- The report is moved and titled; the other text is moved, and kept as it was. -/
theorem relocateReports_losesNoReport_refused : ∃ s',
    (relocateReports sampleConfig).run reportedSession =
        (.error (.retitleReport (.refused "/w/TestResults64.xml" .noRoot)), s') ∧
      Relocated sampleConfig .ia32 (Text.bytes "<testsuite/>".toList) s'.files ∧
        Moved sampleConfig .x64 (Text.bytes "none".toList) s'.files := by
  have hresult : ((relocateReports sampleConfig).run reportedSession).1 =
      .error (.retitleReport (.refused "/w/TestResults64.xml" .noRoot)) := by
    decide +kernel
  have hfirst : reportedSession.files.read (sampleConfig.resultFile .ia32) =
      .ok (Text.bytes "<testsuite/>".toList) := by
    decide +kernel
  have hsecond : reportedSession.files.read (sampleConfig.resultFile .x64) =
      .ok (Text.bytes "none".toList) := by
    decide +kernel
  have hkept := (relocateReports_losesNoReport sampleConfig "" "" reportedSession).1
  cases hrun : (relocateReports sampleConfig).run reportedSession with
  | mk result s' =>
    rw [hrun] at hresult hkept
    obtain rfl : result = _ := hresult
    refine ⟨s', rfl, ?_⟩
    obtain ⟨earlier, a, later, hsplit, hearlier, hfailed, -⟩ := hkept.error _ rfl
    cases hfailed with
    | retitle error hpath content hread hmoved =>
      cases a with
      | ia32 => exact absurd hpath (by decide)
      | x64 =>
        rw [hsecond] at hread
        cases hread
        cases earlier with
        | nil => cases hsplit
        | cons first rest =>
          obtain ⟨rfl, -⟩ := List.cons.inj hsplit
          exact ⟨(hearlier .ia32 List.mem_cons_self).relocated _ hfirst, hmoved⟩

end

end Bench
end FirmwareTests
