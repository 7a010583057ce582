import FirmwareTests.Proofs.Files.Changes

/-!
# File systems that differ at some places

Two file systems may differ in the files that stand at some places, and be alike elsewhere.
An operation whose paths do not pass such a place then succeeds on both or has the same fault
on both, and leaves them alike, if what it reads there has the same content.
-/

namespace FirmwareTests
namespace Files

/-- Results that are both values in a relation, or the same error. -/
inductive Agree {ε α : Type} (R : α → α → Prop) : Except ε α → Except ε α → Prop
  | ok {a a' : α} (h : R a a') : Agree R (.ok a) (.ok a')
  | error (e : ε) : Agree R (.error e) (.error e)

namespace Agree

variable {ε ε' α β : Type} {R : α → α → Prop} {S : β → β → Prop} {x x' : Except ε α}

theorem refl (hR : ∀ a, R a a) (x : Except ε α) : Agree R x x := by
  cases x with
  | ok a => exact .ok (hR a)
  | error e => exact .error e

theorem bind {f f' : α → Except ε β} (h : Agree R x x')
    (hf : ∀ a a', x = .ok a → x' = .ok a' → R a a' → Agree S (f a) (f' a')) :
    Agree S (x >>= f) (x' >>= f') := by
  cases h with
  | ok h => exact hf _ _ rfl rfl h
  | error e => exact .error e

theorem mapError (h : Agree R x x') (f : ε → ε') : Agree R (x.mapError f) (x'.mapError f) := by
  cases h with
  | ok h => exact .ok h
  | error e => exact .error (f e)

end Agree

namespace FileSystem

/-- File systems that are alike elsewhere than at some places, with no directory there. -/
structure SameExcept (places : List Location) (fs fs' : FileSystem) : Prop where
  current : fs'.current = fs.current
  elsewhere : ∀ l, l ∉ places → fs'.entryAt? l = fs.entryAt? l
  noDirectory : ∀ l ∈ places,
    fs.entryAt? l ≠ some .directory ∧ fs'.entryAt? l ≠ some .directory

def content? (fs : FileSystem) (path : String) : Option (List UInt8) :=
  (fs.read path).toOption

section

variable {fs fs' : FileSystem} {path : String} {content : List UInt8}

theorem content?_eq_some_iff : fs.content? path = some content ↔ fs.read path = .ok content := by
  unfold content?
  cases fs.read path <;> simp [Except.toOption]

theorem isFile_eq_isSome_content? : fs.isFile path = (fs.content? path).isSome := by
  rw [Bool.eq_iff_iff, isFile_iff, Option.isSome_iff_exists]
  simp only [content?_eq_some_iff, read_eq_ok_iff]
  constructor
  · rintro ⟨hfollows, content, executable, hentry⟩
    exact ⟨content, hfollows, executable, hentry⟩
  · rintro ⟨content, hfollows, executable, hentry⟩
    exact ⟨hfollows, content, executable, hentry⟩

theorem content?_congr (h : SameDirectories fs fs') (hat : fs'.at? path = fs.at? path) :
    fs'.content? path = fs.content? path := by
  apply Option.ext
  intro content
  rw [content?_eq_some_iff, content?_eq_some_iff, read_eq_ok_congr h hat]

theorem readText_congr (hcontent : fs'.content? path = fs.content? path)
    (hfile : fs.isFile path = true) : fs'.readText path = fs.readText path := by
  rw [isFile_eq_isSome_content?, Option.isSome_iff_exists] at hfile
  obtain ⟨content, hfile⟩ := hfile
  rw [hfile, content?_eq_some_iff] at hcontent
  rw [content?_eq_some_iff] at hfile
  unfold readText
  rw [hfile, hcontent]

theorem load_congr (hcontent : fs'.content? path = fs.content? path)
    (hfile : fs.isFile path = true) :
    Reports.Report.load fs' path = Reports.Report.load fs path := by
  unfold Reports.Report.load
  rw [readText_congr hcontent hfile]

end

namespace SameExcept

variable {places : List Location} {fs fs' : FileSystem} {path source target : String}
variable {content content' : List UInt8} {executable executable' : Bool} {location : Location}

theorem of_changesOnly (h : ChangesOnly places fs fs')
    (hplaces : ∀ l ∈ places, fs.entryAt? l ≠ some .directory) : SameExcept places fs fs' := by
  refine ⟨h.directories.current, h.elsewhere, ?_⟩
  intro l hl
  rw [Ne, Ne, h.directories.directory]
  exact ⟨hplaces l hl, hplaces l hl⟩

theorem sameDirectories (h : SameExcept places fs fs') : SameDirectories fs fs' := by
  refine ⟨h.current, ?_⟩
  intro l
  by_cases hl : l ∈ places
  · obtain ⟨hfs, hfs'⟩ := h.noDirectory l hl
    exact ⟨fun hdirectory => absurd hdirectory hfs', fun hdirectory => absurd hdirectory hfs⟩
  · rw [h.elsewhere l hl]

theorem resolve_eq (h : SameExcept places fs fs') (hway : ∀ l ∈ way fs.current path, l ∉ places) :
    fs'.resolve path = fs.resolve path := by
  refine (resolve_congr h.current.symm ?_).symm
  intro l hl
  exact (h.elsewhere l (hway l hl)).symm

theorem lookup_eq (h : SameExcept places fs fs') (hway : ∀ l ∈ way fs.current path, l ∉ places)
    (hpath : destination fs.current path ∉ places) : fs'.lookup path = fs.lookup path := by
  unfold lookup
  rw [h.resolve_eq hway]
  cases hresolve : fs.resolve path with
  | error fault => rfl
  | ok location =>
    obtain ⟨-, rfl⟩ := resolve_eq_ok_iff.mp hresolve
    rw [ok_bind, ok_bind, h.elsewhere _ hpath]

/-! ### Alike after a change -/

theorem put (h : SameExcept places fs fs') (hlocation : fs.entryAt? location ≠ some .directory)
    (hsame : location ∉ places → content' = content ∧ executable' = executable) :
    SameExcept places (fs.put location (.file content executable))
      (fs'.put location (.file content' executable')) := by
  have hlocation' : fs'.entryAt? location ≠ some .directory := by
    rw [Ne, h.sameDirectories.directory]
    exact hlocation
  refine ⟨h.current, ?_, ?_⟩
  · intro l hl
    rw [entryAt?_put hlocation, entryAt?_put hlocation']
    split
    · next heq =>
      obtain ⟨rfl, rfl⟩ := hsame (heq ▸ hl)
      rfl
    · exact h.elsewhere l hl
  · intro l hl
    rw [entryAt?_put hlocation, entryAt?_put hlocation']
    split
    · exact ⟨file_ne_directory, file_ne_directory⟩
    · exact h.noDirectory l hl

theorem erase (h : SameExcept places fs fs')
    (hlocation : fs.entryAt? location ≠ some .directory) :
    SameExcept places (fs.erase location) (fs'.erase location) := by
  have hlocation' : fs'.entryAt? location ≠ some .directory := by
    rw [Ne, h.sameDirectories.directory]
    exact hlocation
  refine ⟨h.current, ?_, ?_⟩
  · intro l hl
    rw [entryAt?_erase hlocation, entryAt?_erase hlocation']
    split
    · rfl
    · exact h.elsewhere l hl
  · intro l hl
    rw [entryAt?_erase hlocation, entryAt?_erase hlocation']
    split
    · simp
    · exact h.noDirectory l hl

/-! ### Alike operations -/

theorem putFile_eq_ite (hresolve : fs.resolve path = .ok location) :
    fs.putFile path content executable =
      if fs.entryAt? location = some .directory then .error .isADirectory
      else .ok (fs.put location (.file content executable)) := by
  rw [FileSystem.putFile, hresolve, ok_bind]
  split
  · next hentry => rw [if_pos hentry]
  · next hentry => rw [if_neg hentry]

theorem putFile (h : SameExcept places fs fs') (hway : ∀ l ∈ way fs.current path, l ∉ places)
    (hsame : destination fs.current path ∉ places →
      content' = content ∧ executable' = executable) :
    Agree (SameExcept places) (fs.putFile path content executable)
      (fs'.putFile path content' executable') := by
  have hresolve' := h.resolve_eq hway
  cases hresolve : fs.resolve path with
  | error fault =>
    rw [FileSystem.putFile, FileSystem.putFile, hresolve', hresolve]
    exact .error fault
  | ok location =>
    obtain ⟨-, rfl⟩ := resolve_eq_ok_iff.mp hresolve
    rw [hresolve] at hresolve'
    rw [putFile_eq_ite hresolve, putFile_eq_ite hresolve']
    simp only [h.sameDirectories.directory]
    split
    · exact .error _
    · next hentry => exact .ok (h.put hentry hsame)

theorem write (h : SameExcept places fs fs') (hway : ∀ l ∈ way fs.current path, l ∉ places)
    (hpath : destination fs.current path ∈ places) :
    Agree (SameExcept places) (fs.write path content) (fs'.write path content) := by
  unfold FileSystem.write
  rw [h.resolve_eq hway]
  cases fs.resolve path with
  | error fault => exact .error fault
  | ok location =>
    rw [ok_bind, ok_bind]
    split <;> split <;> exact h.putFile hway fun hmem => absurd hpath hmem

/-- A file that is read and put elsewhere than at the places is copied alike. -/
theorem copy (h : SameExcept places fs fs') (hway : ∀ l ∈ way fs.current source, l ∉ places)
    (hsource : destination fs.current source ∉ places)
    (hway' : ∀ l ∈ way fs.current target, l ∉ places) :
    Agree (SameExcept places) (fs.copy source target) (fs'.copy source target) := by
  unfold FileSystem.copy
  rw [h.lookup_eq hway hsource]
  refine Agree.mapError ?_ _
  cases fs.lookup source with
  | error fault => exact .error fault
  | ok entry =>
    cases entry with
    | directory => exact .error _
    | file content executable =>
      rw [ok_bind, ok_bind, h.resolve_eq hway, h.resolve_eq hway']
      refine Agree.bind (Agree.refl (R := Eq) (fun _ => rfl) _) ?_
      rintro old - - - rfl
      refine Agree.bind (Agree.refl (R := Eq) (fun _ => rfl) _) ?_
      rintro new - - - rfl
      exact h.putFile hway' fun _ => ⟨rfl, rfl⟩

theorem remove (h : SameExcept places fs fs') (hway : ∀ l ∈ way fs.current path, l ∉ places)
    (hpath : destination fs.current path ∉ places) :
    Agree (SameExcept places) (fs.remove path) (fs'.remove path) := by
  unfold FileSystem.remove
  rw [h.resolve_eq hway]
  refine Agree.mapError ?_ _
  cases hresolve : fs.resolve path with
  | error fault => exact .error fault
  | ok location =>
    obtain ⟨-, rfl⟩ := resolve_eq_ok_iff.mp hresolve
    rw [ok_bind, ok_bind, h.elsewhere _ hpath]
    cases hentry : fs.entryAt? (destination fs.current path) with
    | none => exact .error _
    | some entry =>
      cases entry with
      | directory => exact .error _
      | file content executable => exact .ok (h.erase (hentry ▸ file_ne_directory))

/-- A file is moved from one place to another alike when there is one in both file
systems. -/
theorem move (h : SameExcept places fs fs')
    (hne : destination fs.current source ≠ destination fs.current target)
    (hsource : fs.isFile source = true) (hsource' : fs'.isFile source = true)
    (hway : ∀ l ∈ way fs.current target, l ∉ places)
    (htarget : destination fs.current target ∈ places) :
    Agree (SameExcept places) (fs.move source target) (fs'.move source target) := by
  obtain ⟨hfollows, content, executable, hentry⟩ := isFile_iff.mp hsource
  obtain ⟨hfollows', content', executable', hentry'⟩ := isFile_iff.mp hsource'
  unfold FileSystem.move
  rw [lookup_eq_ok_iff.mpr ⟨hfollows, hentry⟩, lookup_eq_ok_iff.mpr ⟨hfollows', hentry'⟩,
    ok_bind, ok_bind]
  refine Agree.mapError ?_ _
  refine (h.putFile hway fun hmem => absurd htarget hmem).bind ?_
  intro moved moved' hput hput' hmoved
  have htargetFollows := (putFile_eq_ok_iff.mp hput).1
  have htargetFollows' := (putFile_eq_ok_iff.mp hput').1
  rw [resolve_eq_ok_iff.mpr ⟨hfollows, rfl⟩, resolve_eq_ok_iff.mpr ⟨hfollows', rfl⟩,
    resolve_eq_ok_iff.mpr ⟨htargetFollows, rfl⟩, resolve_eq_ok_iff.mpr ⟨htargetFollows', rfl⟩]
  simp only [ok_bind, h.current, if_neg hne]
  refine .ok (hmoved.erase ?_)
  rw [(changesOnly_putFile hput).elsewhere _ (by simpa using hne), ← at?, hentry]
  exact file_ne_directory

/-- A report at a place is retitled alike when both have the same content. -/
theorem retitleFile {title : String} (h : SameExcept places fs fs')
    (hcontent : fs'.content? path = fs.content? path) (hfile : fs.isFile path = true)
    (hway : ∀ l ∈ way fs.current path, l ∉ places)
    (hpath : destination fs.current path ∈ places) :
    Agree (SameExcept places) (Reports.retitleFile fs path title)
      (Reports.retitleFile fs' path title) := by
  have htext : fs'.readText path = fs.readText path := readText_congr hcontent hfile
  unfold Reports.retitleFile
  rw [htext]
  refine Agree.bind (Agree.refl (R := Eq) (fun _ => rfl) _) ?_
  rintro document - - - rfl
  refine Agree.bind (Agree.refl (R := Eq) (fun _ => rfl) _) ?_
  rintro retitled - - - rfl
  exact (h.putFile hway fun hmem => absurd hpath hmem).mapError _

end SameExcept
end FileSystem
end Files
end FirmwareTests
