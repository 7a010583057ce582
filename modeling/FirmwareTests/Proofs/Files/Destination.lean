import FirmwareTests.Files.FileSystem
import Mathlib.Data.List.Basic

/-!
# Where paths lead

The names of a path decide where it leads; what stands on the way decides only whether it
can be followed. A name joined to a path leads one step further, so paths with different
last names lead to different locations.
-/

namespace FirmwareTests

namespace Files

def Location.next (here : Location) (name : String) : Location :=
  if name = "." then here
  else if name = ".." then here.dropLast
  else here ++ [name]

def origin (current : Location) (path : String) : Location :=
  if isAbsolute path then [] else current

/-- Where a path leads if it can be followed. -/
def destination (current : Location) (path : String) : Location :=
  (components path).foldl Location.next (origin current path)

def waypoints (here : Location) : List String → List Location
  | [] => []
  | name :: names => here :: waypoints (here.next name) names

/-- The locations on the way of a path, without the one it leads to. -/
def way (current : Location) (path : String) : List Location :=
  waypoints (origin current path) (components path)

@[simp] theorem waypoints_append (here : Location) (names more : List String) :
    waypoints here (names ++ more) =
      waypoints here names ++ waypoints (names.foldl Location.next here) more := by
  induction names generalizing here with
  | nil => rfl
  | cons name names ih => simp [waypoints, ih]

/-! ### Absolute paths -/

section

variable {path : String}

theorem destination_of_isAbsolute (h : isAbsolute path = true) (current : Location) :
    destination current path = destination [] path := by
  simp only [destination, origin, h, if_true]

theorem way_of_isAbsolute (h : isAbsolute path = true) (current : Location) :
    way current path = way [] path := by
  simp only [way, origin, h, if_true]

end

/-! ### Joined paths -/

/-- A name that can stand between slashes and is followed downwards. -/
def IsName (part : String) : Prop :=
  part.toList ≠ [] ∧ '/' ∉ part.toList ∧ part ≠ "." ∧ part ≠ ".."

instance (part : String) : Decidable (IsName part) :=
  inferInstanceAs (Decidable (_ ∧ _ ∧ _ ∧ _))

def pathNames (path : String) : List String :=
  ((Text.segments '/' path.toList).filter (· ≠ [])).map String.ofList

theorem components_eq (path : String) :
    components path = pathNames path ++ if endsWithSlash path then ["."] else [] := rfl

section

variable {part : String}

theorem toList_join_cases (base : String) (h : IsName part) :
    base.toList = [] ∧ (join base part).toList = part.toList ∨
      ∃ front, (join base part).toList = front ++ '/' :: part.toList ∧
        (base.toList = front ∧ front ≠ [] ∨ base.toList = front ++ ['/']) := by
  have habsolute : isAbsolute part = false := by
    have hhead : part.toList.head? ≠ some '/' := fun hhead => h.2.1 (List.mem_of_head? hhead)
    simpa [isAbsolute] using hhead
  unfold join
  rw [habsolute, if_neg (by decide)]
  by_cases hempty : base = ""
  · subst hempty
    left
    simp
  · have hne : base.toList ≠ [] := by simpa using hempty
    right
    by_cases hslash : endsWithSlash base = true
    · obtain ⟨front, hfront⟩ : ∃ front, base.toList = front ++ ['/'] := by
        rw [endsWithSlash, beq_iff_eq] at hslash
        exact List.getLast?_eq_some_iff.mp hslash
      exact ⟨front, by simp [hslash, hfront], .inr hfront⟩
    · exact ⟨base.toList, by simp [hempty, hslash], .inl ⟨rfl, hne⟩⟩

theorem pathNames_join (base : String) (h : IsName part) :
    pathNames (join base part) = pathNames base ++ [part] := by
  have hpart : Text.segments '/' part.toList = [part.toList] := Text.segments_of_notMem h.2.1
  unfold pathNames
  rcases toList_join_cases base h with ⟨hbase, hjoin⟩ | ⟨front, hjoin, ⟨hbase, -⟩ | hbase⟩
  · simp [hbase, hjoin, hpart, h.1]
  · simp [hbase, hjoin, Text.segments_append, hpart, h.1]
  · simp [hbase, hjoin, Text.segments_append, hpart, h.1]

theorem components_join (base : String) (h : IsName part) :
    components (join base part) = pathNames base ++ [part] := by
  have hslash : endsWithSlash (join base part) = false := by
    have hlast : ∀ cs, (cs ++ part.toList).getLast? ≠ some '/' := by
      intro cs hlast
      rw [List.getLast?_append_of_ne_nil _ h.1] at hlast
      exact h.2.1 (List.mem_of_getLast? hlast)
    rw [endsWithSlash, ← Bool.not_eq_true, beq_iff_eq]
    rcases toList_join_cases base h with ⟨-, hjoin⟩ | ⟨front, hjoin, -⟩
    · rw [hjoin]
      exact hlast []
    · rw [hjoin, List.append_cons]
      exact hlast (front ++ ['/'])
  rw [components_eq, hslash, pathNames_join base h]
  simp

theorem origin_join (current : Location) (base : String) (h : IsName part) :
    origin current (join base part) = origin current base := by
  have habsolute : isAbsolute (join base part) = isAbsolute base := by
    unfold isAbsolute
    rcases toList_join_cases base h with ⟨hbase, hjoin⟩ | ⟨front, hjoin, ⟨hbase, hne⟩ | hbase⟩
    · have hhead : part.toList.head? ≠ some '/' := fun hhead => h.2.1 (List.mem_of_head? hhead)
      rw [hbase, hjoin]
      simpa using hhead
    · rw [hbase, hjoin, List.head?_append_of_ne_nil _ hne]
    · rw [hbase, hjoin]
      cases front <;> rfl
  rw [origin, origin, habsolute]

theorem Location.next_of_isName (here : Location) (h : IsName part) :
    here.next part = here ++ [part] := by
  rw [Location.next, if_neg h.2.2.1, if_neg h.2.2.2]

/-- A slash at the end of a path does not change where it leads. -/
theorem destination_eq (current : Location) (path : String) :
    destination current path = (pathNames path).foldl Location.next (origin current path) := by
  rw [destination, components_eq, List.foldl_append]
  split <;> rfl

/-- A name is joined to a base: it leads one step further. -/
theorem destination_join (current : Location) (base : String) (h : IsName part) :
    destination current (join base part) = destination current base ++ [part] := by
  rw [destination_eq current base, destination, components_join base h, origin_join current base h,
    List.foldl_append, List.foldl_cons, List.foldl_nil, Location.next_of_isName _ h]

/-- A name is joined to a base: the way goes over the base. -/
theorem mem_way_join (current : Location) (base : String) (h : IsName part) (l : Location) :
    l ∈ way current (join base part) ↔ l ∈ way current base ∨ l = destination current base := by
  rw [way, way, components_join base h, origin_join current base h, components_eq,
    waypoints_append, waypoints_append, ← destination_eq]
  split <;> simp [waypoints]

end

namespace FileSystem

/-- What stands where a path leads, whether or not the path can be followed. -/
def at? (fs : FileSystem) (path : String) : Option Entry :=
  fs.entryAt? (destination fs.current path)

/-! ### Following names -/

theorem follow_eq_ok {fs : FileSystem} {here there : Location} {name : String}
    (h : fs.follow here name = .ok there) :
    fs.entryAt? here = some .directory ∧ there = here.next name := by
  unfold follow at h
  split at h
  · cases h
  · cases h
  · next hdirectory =>
    refine ⟨hdirectory, ?_⟩
    unfold Location.next
    split at h
    · next hdot =>
      cases h
      rw [if_pos hdot]
    · next hdot =>
      rw [if_neg hdot]
      split at h
      · next hdots =>
        cases h
        rw [if_pos hdots]
      · next hdots =>
        rw [if_neg hdots]
        split at h
        · cases h
        · cases h
          rfl

theorem follow_congr {fs fs' : FileSystem} {here : Location}
    (h : fs.entryAt? here = fs'.entryAt? here) (name : String) :
    fs.follow here name = fs'.follow here name := by
  unfold follow
  rw [h]

theorem foldlM_follow_eq_ok {fs : FileSystem} {here there : Location} {names : List String}
    (h : names.foldlM fs.follow here = .ok there) :
    (∀ l ∈ waypoints here names, fs.entryAt? l = some .directory) ∧
      there = names.foldl Location.next here := by
  induction names generalizing here with
  | nil =>
    cases h
    exact ⟨by simp [waypoints], rfl⟩
  | cons name names ih =>
    rw [List.foldlM_cons] at h
    cases hfollow : fs.follow here name with
    | error fault =>
      rw [hfollow] at h
      cases h
    | ok next =>
      rw [hfollow] at h
      obtain ⟨hdirectory, rfl⟩ := follow_eq_ok hfollow
      obtain ⟨hway, hthere⟩ := ih h
      exact ⟨List.forall_mem_cons.mpr ⟨hdirectory, hway⟩, hthere⟩

theorem foldlM_follow_congr {fs fs' : FileSystem} {here : Location} {names : List String}
    (h : ∀ l ∈ waypoints here names, fs.entryAt? l = fs'.entryAt? l) :
    names.foldlM fs.follow here = names.foldlM fs'.follow here := by
  induction names generalizing here with
  | nil => rfl
  | cons name names ih =>
    obtain ⟨hhere, hrest⟩ := List.forall_mem_cons.mp h
    rw [List.foldlM_cons, List.foldlM_cons, follow_congr hhere]
    cases hfollow : fs'.follow here name with
    | error fault => rfl
    | ok next =>
      obtain ⟨-, rfl⟩ := follow_eq_ok hfollow
      exact ih hrest

/-! ### Resolving paths -/

section

variable {fs fs' : FileSystem} {path : String} {location : Location}

theorem resolve_eq_ok (h : fs.resolve path = .ok location) :
    (∀ l ∈ way fs.current path, fs.entryAt? l = some .directory) ∧
      location = destination fs.current path := by
  unfold resolve at h
  split at h
  · cases h
  · split at h
    · cases h
    · split at h
      · cases h
      · exact foldlM_follow_eq_ok h

/-- A path is followed alike where the same entries are on its way. -/
theorem resolve_congr (hcurrent : fs.current = fs'.current)
    (h : ∀ l ∈ way fs.current path, fs.entryAt? l = fs'.entryAt? l) :
    fs.resolve path = fs'.resolve path := by
  unfold resolve
  rw [← hcurrent]
  rw [show (components path).foldlM fs.follow (if isAbsolute path then [] else fs.current) =
    (components path).foldlM fs'.follow (if isAbsolute path then [] else fs.current) from
      foldlM_follow_congr h]

def Follows (fs : FileSystem) (path : String) : Prop :=
  ∃ location, fs.resolve path = .ok location

theorem resolve_eq_ok_iff : fs.resolve path = .ok location ↔
    fs.Follows path ∧ location = destination fs.current path := by
  constructor
  · intro h
    exact ⟨⟨location, h⟩, (resolve_eq_ok h).2⟩
  · rintro ⟨⟨location, h⟩, rfl⟩
    rw [h, (resolve_eq_ok h).2]

/-- The way of a path that can be followed goes through directories. -/
theorem Follows.directories (h : fs.Follows path) :
    ∀ l ∈ way fs.current path, fs.entryAt? l = some .directory := by
  obtain ⟨location, hresolve⟩ := h
  exact (resolve_eq_ok hresolve).1

/-- A path can still be followed when the directories on its way are still there. -/
theorem Follows.of_directories (h : fs.Follows path) (hcurrent : fs'.current = fs.current)
    (hdirectories : ∀ l ∈ way fs.current path, fs'.entryAt? l = some .directory) :
    fs'.Follows path := by
  have hresolve : fs.resolve path = fs'.resolve path := by
    apply resolve_congr hcurrent.symm
    intro l hl
    rw [h.directories l hl, hdirectories l hl]
  obtain ⟨location, hlocation⟩ := h
  exact ⟨location, by rw [← hresolve, hlocation]⟩

end

end FileSystem
end Files
end FirmwareTests
