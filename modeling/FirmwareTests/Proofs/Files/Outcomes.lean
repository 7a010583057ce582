import FirmwareTests.Proofs.Files.Agreement
import FirmwareTests.Proofs.Reports.SuiteDocuments

/-!
# File systems that differ in outcomes

Two file systems may differ in what the test cases of reports have come to: in which of them
fail and what the failures say, and in the counts that are declared. Operations succeed on
both or have the same fault on both, and leave them with such a difference at most. Reports
are retitled in both, and are read from both or refused with the same error.
-/

namespace FirmwareTests
namespace Reports

open Files

/-- Documents that are the same, or suites of the same test cases. -/
inductive SameCases : List Char → List Char → Prop
  | refl (document : List Char) : SameCases document document
  | suites {names : List (List Char)} {document document' : List Char}
      (h : SuiteDocument names document) (h' : SuiteDocument names document') :
      SameCases document document'

namespace SameCases

variable {document document' : List Char}

theorem retitle (h : SameCases document document') (title : List Char) :
    Agree SameCases (Reports.retitle title document) (Reports.retitle title document') := by
  cases h with
  | refl => exact .refl .refl _
  | suites h h' =>
    obtain ⟨out, hout, hsuite⟩ := h.retitle title
    obtain ⟨out', hout', hsuite'⟩ := h'.retitle title
    rw [hout, hout']
    exact .ok (.suites hsuite hsuite')

theorem parse (h : SameCases document document') :
    Agree (fun _ _ => True) (Report.parse document) (Report.parse document') := by
  cases h with
  | refl => exact .refl (fun _ => trivial) _
  | suites h h' =>
    rcases h.sameVerdict h' with ⟨report, report', hok, hok'⟩ | ⟨error, herror, herror'⟩
    · rw [hok, hok']
      exact .ok trivial
    · rw [herror, herror']
      exact .error error

end SameCases
end Reports

namespace Files

open Reports

/-- Contents of files that are the same, or texts with the same test cases. -/
inductive SameCaseContent : List UInt8 → List UInt8 → Prop
  | refl (content : List UInt8) : SameCaseContent content content
  | texts {content content' : List UInt8} {document document' : List Char}
      (htext : Text.ofBytes? content = some document)
      (htext' : Text.ofBytes? content' = some document') (h : SameCases document document') :
      SameCaseContent content content'

/-- Entries that are alike but for the content of a file. -/
inductive SameCaseEntry : Option Entry → Option Entry → Prop
  | refl (found : Option Entry) : SameCaseEntry found found
  | files {content content' : List UInt8} (h : SameCaseContent content content')
      (executable : Bool) :
      SameCaseEntry (some (.file content executable)) (some (.file content' executable))

theorem SameCaseContent.of_bytes {document document' : List Char}
    (h : SameCases document document') : SameCaseContent (Text.bytes document) (Text.bytes document') :=
  .texts (Text.ofBytes?_bytes document) (Text.ofBytes?_bytes document') h

theorem SameCaseEntry.directory_iff {found found' : Option Entry} (h : SameCaseEntry found found') :
    found' = some .directory ↔ found = some .directory := by
  cases h with
  | refl => rfl
  | files => simp

namespace FileSystem

/-- File systems that are alike but for what test cases have come to. -/
structure OutcomesApart (fs fs' : FileSystem) : Prop where
  current : fs'.current = fs.current
  entries : ∀ l, SameCaseEntry (fs.entryAt? l) (fs'.entryAt? l)

namespace OutcomesApart

variable {fs fs' : FileSystem} {path source target : String} {location : Location}
variable {content content' : List UInt8} {executable : Bool}

theorem refl (fs : FileSystem) : OutcomesApart fs fs :=
  ⟨rfl, fun _ => .refl _⟩

/-! ### Looking at files -/

/-- Paths are followed alike, for no name is followed further from a file. -/
theorem follow_eq (h : OutcomesApart fs fs') (here : Location) (name : String) :
    fs'.follow here name = fs.follow here name := by
  have hentry := h.entries here
  unfold follow
  generalize fs.entryAt? here = found at hentry
  generalize fs'.entryAt? here = found' at hentry
  cases hentry <;> rfl

theorem resolve_eq (h : OutcomesApart fs fs') (path : String) :
    fs'.resolve path = fs.resolve path := by
  have hfollow : fs'.follow = fs.follow := funext fun here => funext (h.follow_eq here)
  unfold resolve
  rw [hfollow, h.current]

theorem lookup (h : OutcomesApart fs fs') (path : String) :
    Agree (fun entry entry' => SameCaseEntry (some entry) (some entry')) (fs.lookup path)
      (fs'.lookup path) := by
  unfold FileSystem.lookup
  rw [h.resolve_eq path]
  cases fs.resolve path with
  | error fault => exact .error fault
  | ok location =>
    have hentry := h.entries location
    rw [ok_bind, ok_bind]
    generalize fs.entryAt? location = found at hentry
    generalize fs'.entryAt? location = found' at hentry
    cases hentry with
    | refl =>
      cases found with
      | none => exact .error _
      | some entry => exact .ok (.refl _)
    | files hcontent executable => exact .ok (.files hcontent executable)

theorem isFile_eq (h : OutcomesApart fs fs') (path : String) :
    fs'.isFile path = fs.isFile path := by
  have hlookup := h.lookup path
  unfold isFile
  generalize fs.lookup path = result at hlookup
  generalize fs'.lookup path = result' at hlookup
  cases hlookup with
  | error => rfl
  | ok hentry => cases hentry <;> rfl

theorem read (h : OutcomesApart fs fs') (path : String) :
    Agree SameCaseContent (fs.read path) (fs'.read path) := by
  unfold FileSystem.read
  refine ((h.lookup path).mapError _).bind ?_
  intro entry entry' _ _ hentry
  cases hentry with
  | refl =>
    cases entry with
    | directory => exact .error _
    | file content executable => exact .ok (.refl content)
  | files hcontent => exact .ok hcontent

theorem readText (h : OutcomesApart fs fs') (path : String) :
    Agree SameCases (fs.readText path) (fs'.readText path) := by
  unfold FileSystem.readText
  refine (h.read path).bind ?_
  intro content content' _ _ hcontent
  cases hcontent with
  | refl =>
    cases Text.ofBytes? content with
    | none => exact .error _
    | some document => exact .ok (.refl document)
  | texts htext htext' hcases =>
    rw [htext, htext']
    exact .ok hcases

theorem load (h : OutcomesApart fs fs') (path : String) :
    Agree (fun _ _ => True) (Report.load fs path) (Report.load fs' path) := by
  unfold Report.load
  refine ((h.readText path).mapError _).bind ?_
  intro document document' _ _ hcases
  exact hcases.parse.mapError _

/-! ### Changing files -/

theorem put (h : OutcomesApart fs fs') (hlocation : fs.entryAt? location ≠ some .directory)
    (hcontent : SameCaseContent content content') (executable : Bool) :
    OutcomesApart (fs.put location (.file content executable))
      (fs'.put location (.file content' executable)) := by
  have hlocation' : fs'.entryAt? location ≠ some .directory :=
    (h.entries location).directory_iff.not.mpr hlocation
  refine ⟨h.current, ?_⟩
  intro l
  rw [entryAt?_put hlocation, entryAt?_put hlocation']
  split
  · exact .files hcontent executable
  · exact h.entries l

theorem erase (h : OutcomesApart fs fs') (hlocation : fs.entryAt? location ≠ some .directory) :
    OutcomesApart (fs.erase location) (fs'.erase location) := by
  have hlocation' : fs'.entryAt? location ≠ some .directory :=
    (h.entries location).directory_iff.not.mpr hlocation
  refine ⟨h.current, ?_⟩
  intro l
  rw [entryAt?_erase hlocation, entryAt?_erase hlocation']
  split
  · exact .refl none
  · exact h.entries l

theorem putFile (h : OutcomesApart fs fs') (path : String)
    (hcontent : SameCaseContent content content') (executable : Bool) :
    Agree OutcomesApart (fs.putFile path content executable)
      (fs'.putFile path content' executable) := by
  have hresolve' := h.resolve_eq path
  cases hresolve : fs.resolve path with
  | error fault =>
    rw [FileSystem.putFile, FileSystem.putFile, hresolve', hresolve]
    exact .error fault
  | ok location =>
    rw [hresolve] at hresolve'
    rw [SameExcept.putFile_eq_ite hresolve, SameExcept.putFile_eq_ite hresolve']
    simp only [(h.entries location).directory_iff]
    split
    · exact .error _
    · next hentry => exact .ok (h.put hentry hcontent executable)

theorem write (h : OutcomesApart fs fs') (path : String)
    (hcontent : SameCaseContent content content') :
    Agree OutcomesApart (fs.write path content) (fs'.write path content') := by
  unfold FileSystem.write
  rw [h.resolve_eq path]
  cases fs.resolve path with
  | error fault => exact .error fault
  | ok location =>
    have hentry := h.entries location
    rw [ok_bind, ok_bind]
    generalize fs.entryAt? location = found at hentry
    generalize fs'.entryAt? location = found' at hentry
    cases hentry with
    | refl => split <;> exact h.putFile path hcontent _
    | files _ executable => exact h.putFile path hcontent executable

/-- The last part of copying a file, once what is copied has been read. -/
theorem putUnlessSame (h : OutcomesApart fs fs') (source target : String)
    (hcontent : SameCaseContent content content') (executable : Bool) :
    Agree OutcomesApart
      (do
        let old ← fs.resolve source
        let new ← fs.resolve target
        fs.putFile target (if old = new then [] else content) executable)
      (do
        let old ← fs'.resolve source
        let new ← fs'.resolve target
        fs'.putFile target (if old = new then [] else content') executable) := by
  rw [h.resolve_eq source, h.resolve_eq target]
  refine (Agree.refl (R := Eq) (fun _ => rfl) (fs.resolve source)).bind ?_
  rintro old _ - - rfl
  refine (Agree.refl (R := Eq) (fun _ => rfl) (fs.resolve target)).bind ?_
  rintro new _ - - rfl
  refine h.putFile target ?_ executable
  split
  · exact .refl []
  · exact hcontent

theorem copy (h : OutcomesApart fs fs') (source target : String) :
    Agree OutcomesApart (fs.copy source target) (fs'.copy source target) := by
  unfold FileSystem.copy
  refine ((h.lookup source).bind ?_).mapError _
  intro entry entry' _ _ hentry
  cases hentry with
  | refl =>
    cases entry with
    | directory => exact .error _
    | file content executable => exact h.putUnlessSame source target (.refl content) executable
  | files hcontent executable => exact h.putUnlessSame source target hcontent executable

theorem remove (h : OutcomesApart fs fs') (path : String) :
    Agree OutcomesApart (fs.remove path) (fs'.remove path) := by
  unfold FileSystem.remove
  rw [h.resolve_eq path]
  refine Agree.mapError ?_ _
  cases fs.resolve path with
  | error fault => exact .error fault
  | ok location =>
    have hentry := h.entries location
    have herase : fs.entryAt? location ≠ some .directory → _ := h.erase
    rw [ok_bind, ok_bind]
    generalize fs.entryAt? location = found at hentry herase
    generalize fs'.entryAt? location = found' at hentry
    cases hentry with
    | files => exact .ok (herase file_ne_directory)
    | refl =>
      cases found with
      | none => exact .error _
      | some entry =>
        cases entry with
        | directory => exact .error _
        | file => exact .ok (herase file_ne_directory)

/-- The last part of moving a file, once what is moved has been read. -/
theorem putAndErase (h : OutcomesApart fs fs') (target : String)
    (hsource : fs.lookup source = .ok (.file content executable))
    (hcontent : SameCaseContent content content') :
    Agree OutcomesApart
      (do
        let moved ← fs.putFile target content executable
        let old ← fs.resolve source
        let new ← fs.resolve target
        return if old = new then fs else moved.erase old)
      (do
        let moved ← fs'.putFile target content' executable
        let old ← fs'.resolve source
        let new ← fs'.resolve target
        return if old = new then fs' else moved.erase old) := by
  rw [h.resolve_eq source, h.resolve_eq target]
  refine (h.putFile target hcontent executable).bind ?_
  intro moved moved' hput _ hmoved
  refine (Agree.refl (R := Eq) (fun _ => rfl) (fs.resolve source)).bind ?_
  rintro old _ hold - rfl
  refine (Agree.refl (R := Eq) (fun _ => rfl) (fs.resolve target)).bind ?_
  rintro new _ - - rfl
  have hentry : fs.entryAt? old = some (.file content executable) := by
    rw [(resolve_eq_ok_iff.mp hold).2]
    exact (lookup_eq_ok_iff.mp hsource).2
  have hkept : moved.entryAt? old ≠ some .directory := by
    rw [Ne, (changesOnly_putFile hput).directories.directory, hentry]
    exact file_ne_directory
  by_cases hsame : old = new
  · rw [if_pos hsame, if_pos hsame]
    exact .ok h
  · rw [if_neg hsame, if_neg hsame]
    exact .ok (hmoved.erase hkept)

theorem move (h : OutcomesApart fs fs') (source target : String) :
    Agree OutcomesApart (fs.move source target) (fs'.move source target) := by
  unfold FileSystem.move
  refine ((h.lookup source).bind ?_).mapError _
  intro entry entry' hsource _ hentry
  cases hentry with
  | refl =>
    cases entry with
    | directory => exact .error _
    | file content executable => exact h.putAndErase target hsource (.refl content)
  | files hcontent executable => exact h.putAndErase target hsource hcontent

/-- A report is retitled alike, whatever its test cases have come to. -/
theorem retitleFile (h : OutcomesApart fs fs') (path title : String) :
    Agree OutcomesApart (Reports.retitleFile fs path title)
      (Reports.retitleFile fs' path title) := by
  unfold Reports.retitleFile
  refine ((h.readText path).mapError _).bind ?_
  intro document document' _ _ hcases
  refine ((hcases.retitle title.toList).mapError _).bind ?_
  intro retitled retitled' _ _ hretitled
  exact (h.putFile path (.of_bytes hretitled) false).mapError _

end OutcomesApart
end FileSystem
end Files
end FirmwareTests
