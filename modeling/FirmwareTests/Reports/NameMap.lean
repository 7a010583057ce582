/-!
# Maps from names

A map from names is a list of entries in strictly ascending order of their names.
Names are ordered by their characters, which is also the order of their UTF-8 bytes.
-/

namespace FirmwareTests
namespace Reports

universe u

/-- A map from names. -/
structure NameMap (α : Type u) where
  entries : List (String × α)
  ascending : entries.Pairwise fun a b => a.1 < b.1
  deriving DecidableEq

namespace NameMap

variable {α : Type u}

def empty : NameMap α :=
  ⟨[], .nil⟩

instance : EmptyCollection (NameMap α) :=
  ⟨empty⟩

instance : Inhabited (NameMap α) :=
  ⟨empty⟩

@[simp] theorem entries_empty : (∅ : NameMap α).entries = [] := rfl

def isEmpty (m : NameMap α) : Bool :=
  m.entries.isEmpty

def find? (m : NameMap α) (name : String) : Option α :=
  (m.entries.find? fun e => e.1 == name).map Prod.snd

@[simp] theorem find?_empty (name : String) : (∅ : NameMap α).find? name = none := rfl

/-- Entries with a value put at a name, made from the value that was there. -/
def updateEntries (name : String) (f : Option α → α) : List (String × α) → List (String × α)
  | [] => [(name, f none)]
  | e :: es =>
    if name < e.1 then (name, f none) :: e :: es
    else if name = e.1 then (name, f (some e.2)) :: es
    else e :: updateEntries name f es

theorem fst_of_mem_updateEntries {name : String} {f : Option α → α} {es : List (String × α)}
    {e : String × α} (h : e ∈ updateEntries name f es) :
    e.1 = name ∨ ∃ e' ∈ es, e'.1 = e.1 := by
  induction es with
  | nil => simp_all [updateEntries]
  | cons e' es ih =>
    simp only [updateEntries] at h
    split at h
    · rcases List.mem_cons.1 h with rfl | h
      · exact .inl rfl
      · exact .inr ⟨e, h, rfl⟩
    · split at h
      · rcases List.mem_cons.1 h with rfl | h
        · exact .inl rfl
        · exact .inr ⟨e, List.mem_cons_of_mem _ h, rfl⟩
      · rcases List.mem_cons.1 h with rfl | h
        · exact .inr ⟨e, List.mem_cons_self, rfl⟩
        · rcases ih h with h | ⟨e'', hmem, heq⟩
          · exact .inl h
          · exact .inr ⟨e'', List.mem_cons_of_mem _ hmem, heq⟩

theorem ascending_updateEntries (name : String) (f : Option α → α) {es : List (String × α)}
    (h : es.Pairwise fun a b => a.1 < b.1) :
    (updateEntries name f es).Pairwise fun a b => a.1 < b.1 := by
  induction es with
  | nil => simp [updateEntries]
  | cons e es ih =>
    obtain ⟨hfirst, hrest⟩ := List.pairwise_cons.1 h
    simp only [updateEntries]
    split
    · next hlt =>
      refine List.pairwise_cons.2 ⟨fun e' he' => ?_, h⟩
      rcases List.mem_cons.1 he' with rfl | he'
      · exact hlt
      · exact String.lt_trans hlt (hfirst e' he')
    · next hnlt =>
      split
      · next heq =>
        subst heq
        exact List.pairwise_cons.2 ⟨hfirst, hrest⟩
      · next hne =>
        refine List.pairwise_cons.2 ⟨fun e' he' => ?_, ih hrest⟩
        rcases fst_of_mem_updateEntries he' with hname | ⟨e'', hmem, heq⟩
        · rw [hname]
          have hle := String.not_lt.1 hnlt
          exact Decidable.byContradiction fun hn =>
            hne (String.le_antisymm (String.not_lt.1 hn) hle)
        · exact heq ▸ hfirst e'' hmem

theorem find?_entries_eq_none {name : String} {es : List (String × α)}
    (h : ∀ e ∈ es, name < e.1) : (es.find? fun e => e.1 == name) = none := by
  refine List.find?_eq_none.2 fun e he heq => ?_
  have hlt := h e he
  rw [eq_of_beq heq] at hlt
  exact String.lt_irrefl name hlt

theorem find?_updateEntries_self (name : String) (f : Option α → α) {es : List (String × α)}
    (h : es.Pairwise fun a b => a.1 < b.1) :
    ((updateEntries name f es).find? fun e => e.1 == name).map Prod.snd =
      some (f ((es.find? fun e => e.1 == name).map Prod.snd)) := by
  induction es with
  | nil => simp [updateEntries]
  | cons e es ih =>
    obtain ⟨hfirst, hrest⟩ := List.pairwise_cons.1 h
    simp only [updateEntries]
    split
    · next hlt =>
      have hbelow : ∀ e' ∈ e :: es, name < e'.1 := by
        intro e' he'
        rcases List.mem_cons.1 he' with rfl | he'
        · exact hlt
        · exact String.lt_trans hlt (hfirst e' he')
      simp [find?_entries_eq_none hbelow]
    · split
      · next heq => simp [heq]
      · next hne => simp [Ne.symm hne, ih hrest]

theorem find?_updateEntries_of_ne {name other : String} (h : other ≠ name) (f : Option α → α)
    (es : List (String × α)) :
    ((updateEntries name f es).find? fun e => e.1 == other) =
      es.find? fun e => e.1 == other := by
  induction es with
  | nil => simp [updateEntries, Ne.symm h]
  | cons e es ih =>
    simp only [updateEntries]
    split
    · simp [Ne.symm h]
    · split
      · next heq => simp [← heq, Ne.symm h]
      · simp [List.find?_cons, ih]

/-- Puts a value at a name, made from the value that was there. -/
def update (m : NameMap α) (name : String) (f : Option α → α) : NameMap α :=
  ⟨updateEntries name f m.entries, ascending_updateEntries name f m.ascending⟩

theorem find?_update_self (m : NameMap α) (name : String) (f : Option α → α) :
    (m.update name f).find? name = some (f (m.find? name)) :=
  find?_updateEntries_self name f m.ascending

theorem find?_update_of_ne (m : NameMap α) {name other : String} (h : other ≠ name)
    (f : Option α → α) : (m.update name f).find? other = m.find? other := by
  simp [find?, update, find?_updateEntries_of_ne h]

def insert (m : NameMap α) (name : String) (value : α) : NameMap α :=
  m.update name fun _ => value

theorem find?_insert_self (m : NameMap α) (name : String) (value : α) :
    (m.insert name value).find? name = some value :=
  m.find?_update_self name fun _ => value

/-- The entries of both maps; the second map wins. -/
def union (m n : NameMap α) : NameMap α :=
  n.entries.foldl (fun m e => m.insert e.1 e.2) m

def values (m : NameMap α) : List α :=
  m.entries.map Prod.snd

end NameMap
end Reports
end FirmwareTests
