import FirmwareTests.Proofs.Files.Destination
import FirmwareTests.Reports.OnDisk

/-!
# What operations on files change

An operation that succeeds reads or replaces what stands where its paths lead. It leaves
every other location and every directory as it was.
-/

namespace FirmwareTests
namespace Files

/-! ### Results -/

section

variable {ε ε' α β : Type}

@[simp] theorem ok_bind (a : α) (f : α → Except ε β) : (Except.ok a >>= f) = f a := rfl

theorem bind_eq_ok_iff {x : Except ε α} {f : α → Except ε β} {b : β} :
    x >>= f = .ok b ↔ ∃ a, x = .ok a ∧ f a = .ok b := by
  cases x with
  | error e =>
    constructor
    · intro h
      cases h
    · rintro ⟨a, ha, -⟩
      cases ha
  | ok a =>
    constructor
    · intro h
      exact ⟨a, rfl, h⟩
    · rintro ⟨a, ha, h⟩
      cases ha
      exact h

@[simp] theorem mapError_eq_ok_iff {x : Except ε α} {f : ε → ε'} {a : α} :
    x.mapError f = .ok a ↔ x = .ok a := by
  cases x <;> simp [Except.mapError]

theorem of_mapError_eq_error {f : ε → ε'} {x : Except ε α} {e : ε'}
    (h : x.mapError f = .error e) : ∃ cause, e = f cause := by
  cases x with
  | error cause =>
    cases h
    exact ⟨cause, rfl⟩
  | ok a => cases h

theorem of_mapError_bind_eq_error {f : ε → ε'} {x : Except ε α} {g : α → Except ε' β} {e : ε'}
    (h : x.mapError f >>= g = .error e) : (∃ cause, e = f cause) ∨ ∃ a, g a = .error e := by
  cases x with
  | error cause =>
    cases h
    exact .inl ⟨cause, rfl⟩
  | ok a => exact .inr ⟨a, h⟩

end

namespace FileSystem

variable {fs fs' : FileSystem} {path source target : String} {content : List UInt8}
variable {executable : Bool} {location other : Location} {entry : Entry}

/-! ### Entries -/

@[simp] theorem current_put (fs : FileSystem) (location : Location) (entry : Entry) :
    (fs.put location entry).current = fs.current := rfl

@[simp] theorem current_erase (fs : FileSystem) (location : Location) :
    (fs.erase location).current = fs.current := rfl

theorem file_ne_directory : some (Entry.file content executable) ≠ some .directory := by
  simp

theorem ne_nil_of_entryAt?_ne (h : fs.entryAt? location ≠ some .directory) : location ≠ [] := by
  rintro rfl
  exact h rfl

theorem entryAt?_put (h : fs.entryAt? location ≠ some .directory) (entry : Entry)
    (other : Location) : (fs.put location entry).entryAt? other =
      if other = location then some entry else fs.entryAt? other := by
  split
  · next heq =>
    rw [heq, fs.entryAt?_put_self (ne_nil_of_entryAt?_ne h)]
  · next hne => exact fs.entryAt?_put_of_ne hne entry

theorem entryAt?_erase (h : fs.entryAt? location ≠ some .directory) (other : Location) :
    (fs.erase location).entryAt? other =
      if other = location then none else fs.entryAt? other := by
  split
  · next heq =>
    subst heq
    simp [entryAt?, erase, ne_nil_of_entryAt?_ne h]
  · next hne => exact fs.entryAt?_erase_of_ne hne

/-- A file system with the same directories as another one. -/
structure SameDirectories (fs fs' : FileSystem) : Prop where
  current : fs'.current = fs.current
  directory : ∀ l, fs'.entryAt? l = some .directory ↔ fs.entryAt? l = some .directory

namespace SameDirectories

theorem refl (fs : FileSystem) : SameDirectories fs fs :=
  ⟨rfl, fun _ => Iff.rfl⟩

theorem symm (h : SameDirectories fs fs') : SameDirectories fs' fs :=
  ⟨h.current.symm, fun l => (h.directory l).symm⟩

theorem trans {fs'' : FileSystem} (h : SameDirectories fs fs') (h' : SameDirectories fs' fs'') :
    SameDirectories fs fs'' :=
  ⟨h'.current.trans h.current, fun l => (h'.directory l).trans (h.directory l)⟩

theorem follows_iff (h : SameDirectories fs fs') (path : String) :
    fs'.Follows path ↔ fs.Follows path := by
  constructor
  · intro hfollows
    refine hfollows.of_directories h.symm.current ?_
    intro l hl
    exact (h.directory l).mp (hfollows.directories l hl)
  · intro hfollows
    refine hfollows.of_directories h.current ?_
    intro l hl
    exact (h.directory l).mpr (hfollows.directories l hl)

end SameDirectories

theorem sameDirectories_put (h : fs.entryAt? location ≠ some .directory) (content : List UInt8)
    (executable : Bool) : SameDirectories fs (fs.put location (.file content executable)) := by
  refine ⟨rfl, ?_⟩
  intro l
  rw [entryAt?_put h]
  split
  · next heq =>
    rw [heq]
    exact iff_of_false file_ne_directory h
  · exact Iff.rfl

theorem sameDirectories_erase (h : fs.entryAt? location ≠ some .directory) :
    SameDirectories fs (fs.erase location) := by
  refine ⟨rfl, ?_⟩
  intro l
  rw [entryAt?_erase h]
  split
  · next heq =>
    rw [heq]
    exact iff_of_false (by simp) h
  · exact Iff.rfl

/-! ### Looking at files -/

theorem lookup_eq_ok_iff : fs.lookup path = .ok entry ↔
    fs.Follows path ∧ fs.at? path = some entry := by
  unfold lookup at?
  rw [bind_eq_ok_iff]
  constructor
  · rintro ⟨location, hresolve, hentry⟩
    obtain ⟨hfollows, rfl⟩ := resolve_eq_ok_iff.mp hresolve
    refine ⟨hfollows, ?_⟩
    split at hentry
    · cases hentry
    · next heq =>
      cases hentry
      exact heq
  · rintro ⟨hfollows, hentry⟩
    refine ⟨_, resolve_eq_ok_iff.mpr ⟨hfollows, rfl⟩, ?_⟩
    rw [hentry]

theorem isFile_iff : fs.isFile path = true ↔
    fs.Follows path ∧ ∃ content executable, fs.at? path = some (.file content executable) := by
  unfold isFile
  constructor
  · intro h
    split at h
    · next content executable hlookup =>
      obtain ⟨hfollows, hentry⟩ := lookup_eq_ok_iff.mp hlookup
      exact ⟨hfollows, content, executable, hentry⟩
    · cases h
  · rintro ⟨hfollows, content, executable, hentry⟩
    rw [lookup_eq_ok_iff.mpr ⟨hfollows, hentry⟩]

theorem read_eq_ok_iff : fs.read path = .ok content ↔
    fs.Follows path ∧ ∃ executable, fs.at? path = some (.file content executable) := by
  unfold read
  rw [bind_eq_ok_iff]
  simp only [mapError_eq_ok_iff, lookup_eq_ok_iff]
  constructor
  · rintro ⟨entry, ⟨hfollows, hentry⟩, hcontent⟩
    cases entry with
    | directory => cases hcontent
    | file content' executable =>
      cases hcontent
      exact ⟨hfollows, executable, hentry⟩
  · rintro ⟨hfollows, executable, hentry⟩
    exact ⟨_, ⟨hfollows, hentry⟩, rfl⟩

theorem isFile_of_read (h : fs.read path = .ok content) : fs.isFile path = true := by
  obtain ⟨hfollows, executable, hentry⟩ := read_eq_ok_iff.mp h
  exact isFile_iff.mpr ⟨hfollows, content, executable, hentry⟩

theorem readText_eq_ok_iff {text : List Char} : fs.readText path = .ok text ↔
    ∃ content, fs.read path = .ok content ∧ Text.ofBytes? content = some text := by
  unfold readText
  rw [bind_eq_ok_iff]
  constructor
  · rintro ⟨content, hcontent, htext⟩
    refine ⟨content, hcontent, ?_⟩
    split at htext
    · next heq =>
      cases htext
      exact heq
    · cases htext
  · rintro ⟨content, hcontent, htext⟩
    refine ⟨content, hcontent, ?_⟩
    rw [htext]

/-! ### Looking again -/

/-! Where directories and the entry are the same, the same is seen. -/

theorem isFile_congr (h : SameDirectories fs fs') (hat : fs'.at? path = fs.at? path) :
    fs'.isFile path = fs.isFile path := by
  rw [Bool.eq_iff_iff, isFile_iff, isFile_iff, h.follows_iff, hat]

theorem read_eq_ok_congr (h : SameDirectories fs fs') (hat : fs'.at? path = fs.at? path) :
    fs'.read path = .ok content ↔ fs.read path = .ok content := by
  rw [read_eq_ok_iff, read_eq_ok_iff, h.follows_iff, hat]

/-! ### Changing files -/

theorem putFile_eq_ok_iff : fs.putFile path content executable = .ok fs' ↔
    fs.Follows path ∧ fs.at? path ≠ some .directory ∧
      fs' = fs.put (destination fs.current path) (.file content executable) := by
  unfold putFile at?
  rw [bind_eq_ok_iff]
  constructor
  · rintro ⟨location, hresolve, hput⟩
    obtain ⟨hfollows, rfl⟩ := resolve_eq_ok_iff.mp hresolve
    refine ⟨hfollows, ?_⟩
    split at hput
    · cases hput
    · next hne =>
      cases hput
      exact ⟨hne, rfl⟩
  · rintro ⟨hfollows, hne, rfl⟩
    refine ⟨_, resolve_eq_ok_iff.mpr ⟨hfollows, rfl⟩, ?_⟩
    split
    · next heq => exact absurd heq hne
    · rfl

theorem at?_putFile (h : fs.putFile path content executable = .ok fs') :
    fs'.at? path = some (.file content executable) := by
  obtain ⟨-, hne, rfl⟩ := putFile_eq_ok_iff.mp h
  rw [at?, current_put, entryAt?_put hne, if_pos rfl]

theorem copy_eq_ok_iff (hne : destination fs.current source ≠ destination fs.current target) :
    fs.copy source target = .ok fs' ↔ ∃ content executable,
      fs.Follows source ∧ fs.at? source = some (.file content executable) ∧
        fs.putFile target content executable = .ok fs' := by
  unfold copy
  rw [mapError_eq_ok_iff, bind_eq_ok_iff]
  simp only [lookup_eq_ok_iff]
  constructor
  · rintro ⟨entry, ⟨hfollows, hentry⟩, hcopy⟩
    cases entry with
    | directory => cases hcopy
    | file content executable =>
      obtain ⟨old, hold, hcopy⟩ := bind_eq_ok_iff.mp hcopy
      obtain ⟨new, hnew, hput⟩ := bind_eq_ok_iff.mp hcopy
      obtain ⟨-, rfl⟩ := resolve_eq_ok_iff.mp hold
      obtain ⟨-, rfl⟩ := resolve_eq_ok_iff.mp hnew
      rw [if_neg hne] at hput
      exact ⟨content, executable, hfollows, hentry, hput⟩
  · rintro ⟨content, executable, hfollows, hentry, hput⟩
    have htarget := (putFile_eq_ok_iff.mp hput).1
    refine ⟨_, ⟨hfollows, hentry⟩, ?_⟩
    refine bind_eq_ok_iff.mpr ⟨_, resolve_eq_ok_iff.mpr ⟨hfollows, rfl⟩, ?_⟩
    refine bind_eq_ok_iff.mpr ⟨_, resolve_eq_ok_iff.mpr ⟨htarget, rfl⟩, ?_⟩
    rw [if_neg hne]
    exact hput

theorem move_eq_ok_iff (hne : destination fs.current source ≠ destination fs.current target) :
    fs.move source target = .ok fs' ↔ ∃ content executable moved,
      fs.Follows source ∧ fs.at? source = some (.file content executable) ∧
        fs.putFile target content executable = .ok moved ∧
          fs' = moved.erase (destination fs.current source) := by
  unfold move
  rw [mapError_eq_ok_iff, bind_eq_ok_iff]
  simp only [lookup_eq_ok_iff]
  constructor
  · rintro ⟨entry, ⟨hfollows, hentry⟩, hmove⟩
    cases entry with
    | directory => cases hmove
    | file content executable =>
      obtain ⟨moved, hput, hmove⟩ := bind_eq_ok_iff.mp hmove
      obtain ⟨old, hold, hmove⟩ := bind_eq_ok_iff.mp hmove
      obtain ⟨new, hnew, hmove⟩ := bind_eq_ok_iff.mp hmove
      obtain ⟨-, rfl⟩ := resolve_eq_ok_iff.mp hold
      obtain ⟨-, rfl⟩ := resolve_eq_ok_iff.mp hnew
      rw [if_neg hne] at hmove
      cases hmove
      exact ⟨content, executable, moved, hfollows, hentry, hput, rfl⟩
  · rintro ⟨content, executable, moved, hfollows, hentry, hput, rfl⟩
    refine ⟨_, ⟨hfollows, hentry⟩, bind_eq_ok_iff.mpr ⟨moved, hput, ?_⟩⟩
    have htarget := (putFile_eq_ok_iff.mp hput).1
    refine bind_eq_ok_iff.mpr ⟨_, resolve_eq_ok_iff.mpr ⟨hfollows, rfl⟩, ?_⟩
    refine bind_eq_ok_iff.mpr ⟨_, resolve_eq_ok_iff.mpr ⟨htarget, rfl⟩, ?_⟩
    rw [if_neg hne]
    rfl

theorem remove_eq_ok_iff : fs.remove path = .ok fs' ↔ ∃ content executable,
    fs.Follows path ∧ fs.at? path = some (.file content executable) ∧
      fs' = fs.erase (destination fs.current path) := by
  unfold remove at?
  rw [mapError_eq_ok_iff, bind_eq_ok_iff]
  constructor
  · rintro ⟨location, hresolve, hremove⟩
    obtain ⟨hfollows, rfl⟩ := resolve_eq_ok_iff.mp hresolve
    split at hremove
    · cases hremove
    · cases hremove
    · next content executable hentry =>
      cases hremove
      exact ⟨content, executable, hfollows, hentry, rfl⟩
  · rintro ⟨content, executable, hfollows, hentry, rfl⟩
    refine ⟨_, resolve_eq_ok_iff.mpr ⟨hfollows, rfl⟩, ?_⟩
    rw [hentry]

/-! ### Where operations write -/

/-- The directories are the same, and so is what stands elsewhere than at some locations. -/
structure ChangesOnly (places : List Location) (fs fs' : FileSystem) : Prop where
  directories : SameDirectories fs fs'
  elsewhere : ∀ l, l ∉ places → fs'.entryAt? l = fs.entryAt? l

namespace ChangesOnly

theorem refl (places : List Location) (fs : FileSystem) : ChangesOnly places fs fs :=
  ⟨.refl fs, fun _ _ => rfl⟩

theorem trans {places places' : List Location} {fs'' : FileSystem}
    (h : ChangesOnly places fs fs') (h' : ChangesOnly places' fs' fs'') :
    ChangesOnly (places ++ places') fs fs'' := by
  refine ⟨h.directories.trans h'.directories, ?_⟩
  intro l hl
  rw [List.mem_append, not_or] at hl
  rw [h'.elsewhere l hl.2, h.elsewhere l hl.1]

theorem mono {places places' : List Location} (h : ChangesOnly places fs fs')
    (hplaces : ∀ l ∈ places, l ∈ places') : ChangesOnly places' fs fs' :=
  ⟨h.directories, fun l hl => h.elsewhere l fun hmem => hl (hplaces l hmem)⟩

theorem trans_self {places : List Location} {fs'' : FileSystem}
    (h : ChangesOnly places fs fs') (h' : ChangesOnly places fs' fs'') :
    ChangesOnly places fs fs'' :=
  (h.trans h').mono fun _ hl => (List.mem_append.mp hl).elim id id

end ChangesOnly

theorem changesOnly_put (h : fs.entryAt? location ≠ some .directory) (content : List UInt8)
    (executable : Bool) :
    ChangesOnly [location] fs (fs.put location (.file content executable)) := by
  refine ⟨sameDirectories_put h content executable, ?_⟩
  intro l hl
  exact fs.entryAt?_put_of_ne (List.ne_of_not_mem_cons hl) _

theorem changesOnly_erase (h : fs.entryAt? location ≠ some .directory) :
    ChangesOnly [location] fs (fs.erase location) := by
  refine ⟨sameDirectories_erase h, ?_⟩
  intro l hl
  exact fs.entryAt?_erase_of_ne (List.ne_of_not_mem_cons hl)

theorem changesOnly_putFile (h : fs.putFile path content executable = .ok fs') :
    ChangesOnly [destination fs.current path] fs fs' := by
  obtain ⟨-, hne, rfl⟩ := putFile_eq_ok_iff.mp h
  exact changesOnly_put hne content executable

theorem changesOnly_write (h : fs.write path content = .ok fs') :
    ChangesOnly [destination fs.current path] fs fs' := by
  unfold write at h
  obtain ⟨location, -, hput⟩ := bind_eq_ok_iff.mp h
  split at hput
  · exact changesOnly_putFile hput
  · exact changesOnly_putFile hput

theorem changesOnly_copy (hne : destination fs.current source ≠ destination fs.current target)
    (h : fs.copy source target = .ok fs') :
    ChangesOnly [destination fs.current target] fs fs' := by
  obtain ⟨content, executable, -, -, hput⟩ := (copy_eq_ok_iff hne).mp h
  exact changesOnly_putFile hput

theorem changesOnly_move (hne : destination fs.current source ≠ destination fs.current target)
    (h : fs.move source target = .ok fs') :
    ChangesOnly [destination fs.current target, destination fs.current source] fs fs' := by
  obtain ⟨content, executable, moved, -, hentry, hput, rfl⟩ := (move_eq_ok_iff hne).mp h
  have hmoved := changesOnly_putFile hput
  refine hmoved.trans (changesOnly_erase ?_)
  rw [hmoved.elsewhere _ (by simpa using hne), ← at?, hentry]
  exact file_ne_directory

theorem read_putFile (h : fs.putFile path content executable = .ok fs') :
    fs'.read path = .ok content := by
  have hfollows := (putFile_eq_ok_iff.mp h).1
  refine read_eq_ok_iff.mpr ⟨?_, executable, at?_putFile h⟩
  exact ((changesOnly_putFile h).directories.follows_iff path).mpr hfollows

theorem read_write (h : fs.write path content = .ok fs') : fs'.read path = .ok content := by
  unfold write at h
  obtain ⟨location, -, hput⟩ := bind_eq_ok_iff.mp h
  split at hput
  · exact read_putFile hput
  · exact read_putFile hput

/-- A file that was moved is at the target and no longer at the source. -/
theorem read_move (hne : destination fs.current source ≠ destination fs.current target)
    (h : fs.move source target = .ok fs') : ∃ content,
      fs.read source = .ok content ∧ fs'.at? source = none ∧ fs'.read target = .ok content := by
  obtain ⟨content, executable, moved, hfollows, hentry, hput, rfl⟩ := (move_eq_ok_iff hne).mp h
  have hmoved := changesOnly_putFile hput
  have hsource : moved.entryAt? (destination fs.current source) ≠ some .directory := by
    rw [hmoved.elsewhere _ (by simpa using hne), ← at?, hentry]
    exact file_ne_directory
  refine ⟨content, read_eq_ok_iff.mpr ⟨hfollows, executable, hentry⟩, ?_, ?_⟩
  · rw [at?, current_erase, hmoved.directories.current, entryAt?_erase hsource, if_pos rfl]
  · refine (read_eq_ok_congr (sameDirectories_erase hsource) ?_).mpr (read_putFile hput)
    rw [at?, at?, current_erase, hmoved.directories.current, entryAt?_erase hsource,
      if_neg hne.symm]

theorem changesOnly_remove (h : fs.remove path = .ok fs') :
    ChangesOnly [destination fs.current path] fs fs' := by
  obtain ⟨content, executable, -, hentry, rfl⟩ := remove_eq_ok_iff.mp h
  refine changesOnly_erase ?_
  rw [← at?, hentry]
  exact file_ne_directory

end FileSystem

/-! ### Reports in files -/

section

variable {fs fs' : FileSystem} {path title : String}

theorem load_eq_ok_iff {report : Reports.Report} :
    Reports.Report.load fs path = .ok report ↔ ∃ document,
      fs.readText path = .ok document ∧ Reports.Report.parse document = .ok report := by
  unfold Reports.Report.load
  rw [bind_eq_ok_iff]
  simp only [mapError_eq_ok_iff]

theorem load_eq_ok_congr {report : Reports.Report} (h : FileSystem.SameDirectories fs fs')
    (hat : fs'.at? path = fs.at? path) :
    Reports.Report.load fs' path = .ok report ↔ Reports.Report.load fs path = .ok report := by
  simp only [load_eq_ok_iff, FileSystem.readText_eq_ok_iff, FileSystem.read_eq_ok_congr h hat]

theorem retitleFile_eq_ok_iff : Reports.retitleFile fs path title = .ok fs' ↔
    ∃ document retitled, fs.readText path = .ok document ∧
      Reports.retitle title.toList document = .ok retitled ∧
        fs.putFile path (Text.bytes retitled) false = .ok fs' := by
  unfold Reports.retitleFile
  rw [bind_eq_ok_iff]
  simp only [bind_eq_ok_iff, mapError_eq_ok_iff]
  constructor
  · rintro ⟨document, hdocument, retitled, hretitled, hput⟩
    exact ⟨document, retitled, hdocument, hretitled, hput⟩
  · rintro ⟨document, retitled, hdocument, hretitled, hput⟩
    exact ⟨document, hdocument, retitled, hretitled, hput⟩

theorem changesOnly_retitleFile (h : Reports.retitleFile fs path title = .ok fs') :
    FileSystem.ChangesOnly [destination fs.current path] fs fs' := by
  obtain ⟨document, retitled, -, -, hput⟩ := retitleFile_eq_ok_iff.mp h
  exact FileSystem.changesOnly_putFile hput

/-- A report that was moved and retitled is at the target with its title, and no longer at
the source. -/
theorem read_retitleFile_move {moved : FileSystem} {source target : String}
    (hne : destination fs.current source ≠ destination fs.current target)
    (hmove : fs.move source target = .ok moved)
    (hretitle : Reports.retitleFile moved target title = .ok fs') :
    ∃ content document retitled, fs.read source = .ok content ∧
      Text.ofBytes? content = some document ∧
        Reports.retitle title.toList document = .ok retitled ∧ fs'.at? source = none ∧
          fs'.read target = .ok (Text.bytes retitled) := by
  obtain ⟨content, hcontent, hgone, hmoved⟩ := FileSystem.read_move hne hmove
  obtain ⟨document, retitled, hdocument, hretitled, hput⟩ := retitleFile_eq_ok_iff.mp hretitle
  obtain ⟨content', hread, htext⟩ := FileSystem.readText_eq_ok_iff.mp hdocument
  rw [hmoved] at hread
  cases hread
  refine ⟨content, document, retitled, hcontent, htext, hretitled, ?_,
    FileSystem.read_putFile hput⟩
  have hcurrent := (FileSystem.changesOnly_move hne hmove).directories.current
  have hchanges := FileSystem.changesOnly_putFile hput
  rw [← hgone, FileSystem.at?, FileSystem.at?, hchanges.directories.current]
  refine hchanges.elsewhere _ (List.mem_singleton.not.mpr ?_)
  rw [hcurrent]
  exact hne

end

end Files
end FirmwareTests
