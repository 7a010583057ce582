import Mathlib.Data.List.Sort
import Mathlib.Data.String.Basic
import FirmwareTests.Proofs.Text.ByteOrder
import FirmwareTests.Reports.NameMap

/-!
# Maps from names as functions

The entries of a map and its look-ups determine each other, so a map is known by what
it has at each name. Inserting and uniting are given by their look-ups. A map of
values that are known by their own look-ups is known by the composed ones.
-/

namespace FirmwareTests
namespace Reports
namespace NameMap

universe u v w

variable {α : Type u}

/-! ### Entries and look-ups -/

theorem nodup_names (m : NameMap α) : (m.entries.map Prod.fst).Nodup :=
  List.pairwise_map.2 (m.ascending.imp fun h => ne_of_lt h)

/-- The names of the entries ascend strictly in the order of their bytes. -/
def InByteOrder (m : NameMap α) : Prop :=
  m.entries.Pairwise fun a b => Text.bytes a.1.toList < Text.bytes b.1.toList

theorem inByteOrder (m : NameMap α) : m.InByteOrder :=
  m.ascending.imp fun h => Text.bytes_lt_bytes_iff.2 (String.lt_iff_toList_lt.1 h)

theorem find?_eq_some_iff {m : NameMap α} {name : String} {value : α} :
    m.find? name = some value ↔ (name, value) ∈ m.entries := by
  rw [find?, Option.map_eq_some_iff]
  constructor
  · rintro ⟨⟨name', _⟩, hfind, rfl⟩
    have hname := List.find?_some hfind
    rw [beq_iff_eq] at hname
    subst hname
    exact List.mem_of_find?_eq_some hfind
  · intro hmem
    cases hfind : m.entries.find? fun e => e.1 == name with
    | none => exact absurd (List.find?_eq_none.1 hfind _ hmem) (by simp)
    | some e =>
      have hname := List.find?_some hfind
      rw [beq_iff_eq] at hname
      have heq := List.inj_on_of_nodup_map m.nodup_names (List.mem_of_find?_eq_some hfind)
        hmem hname
      exact ⟨e, rfl, congrArg Prod.snd heq⟩

theorem ext_find? {m n : NameMap α} (h : ∀ name, m.find? name = n.find? name) : m = n := by
  have hmem : ∀ e, e ∈ m.entries ↔ e ∈ n.entries := by
    rintro ⟨name, value⟩
    rw [← find?_eq_some_iff, ← find?_eq_some_iff, h]
  have hperm : m.entries.Perm n.entries :=
    (List.perm_ext_iff_of_nodup m.nodup_names.of_map n.nodup_names.of_map).2 hmem
  have heq : m.entries = n.entries :=
    hperm.eq_of_pairwise (fun a b _ _ hab hba => absurd hab (lt_asymm hba))
      m.ascending n.ascending
  cases m
  cases n
  cases heq
  rfl

theorem ne_empty_iff {m : NameMap α} : m ≠ ∅ ↔ ∃ name value, m.find? name = some value := by
  constructor
  · intro hne
    by_contra hnone
    push Not at hnone
    refine hne (ext_find? fun name => ?_)
    exact Option.eq_none_iff_forall_ne_some.2 (hnone name)
  · rintro ⟨name, value, hfind⟩ rfl
    cases hfind

theorem isEmpty_eq_true_iff {m : NameMap α} : m.isEmpty = true ↔ m = ∅ := by
  constructor
  · intro h
    refine ext_find? fun name => ?_
    rw [find?, List.isEmpty_iff.1 h]
    rfl
  · rintro rfl
    rfl

/-! ### Updating, inserting and uniting -/

theorem find?_update (m : NameMap α) (name other : String) (f : Option α → α) :
    (m.update name f).find? other =
      if other = name then some (f (m.find? name)) else m.find? other := by
  split
  · next h => rw [h, find?_update_self]
  · next h => rw [find?_update_of_ne m h]

theorem find?_insert (m : NameMap α) (name other : String) (value : α) :
    (m.insert name value).find? other =
      if other = name then some value else m.find? other :=
  m.find?_update name other fun _ => value

theorem find?_foldl_insert (es : List (String × α)) (h : es.Pairwise fun a b => a.1 < b.1)
    (m : NameMap α) (name : String) :
    (es.foldl (fun m e => m.insert e.1 e.2) m).find? name =
      ((⟨es, h⟩ : NameMap α).find? name).or (m.find? name) := by
  induction es generalizing m with
  | nil => rfl
  | cons e es ih =>
    obtain ⟨hfirst, hrest⟩ := List.pairwise_cons.1 h
    rw [List.foldl_cons, ih hrest, find?_insert]
    by_cases hname : name = e.1
    · subst hname
      simp [find?, find?_entries_eq_none hfirst]
    · simp [find?, hname, Ne.symm hname]

theorem find?_union (m n : NameMap α) (name : String) :
    (m.union n).find? name = (n.find? name).or (m.find? name) :=
  find?_foldl_insert n.entries n.ascending m name

/-! ### Maps of maps -/

section

variable {κ : Type v} {β : Type w} (look : α → κ → Option β) (Good : α → Prop)

/-- A map of values that their own look-ups tell apart, and that have something to
look up, is known by looking up in its values. -/
theorem ext_find?_bind (hsome : ∀ a, Good a → ∃ k b, look a k = some b)
    (hinj : ∀ a b, Good a → Good b → (∀ k, look a k = look b k) → a = b) {m n : NameMap α}
    (hm : ∀ name a, m.find? name = some a → Good a)
    (hn : ∀ name a, n.find? name = some a → Good a)
    (h : ∀ name k, ((m.find? name).bind fun a => look a k) =
      (n.find? name).bind fun a => look a k) : m = n := by
  refine ext_find? fun name => ?_
  cases hleft : m.find? name with
  | none =>
    cases hright : n.find? name with
    | none => rfl
    | some b =>
      obtain ⟨k, found, hk⟩ := hsome b (hn name b hright)
      have hat := h name k
      rw [hleft, hright] at hat
      exact absurd (hat.trans hk) nofun
  | some a =>
    cases hright : n.find? name with
    | none =>
      obtain ⟨k, found, hk⟩ := hsome a (hm name a hleft)
      have hat := h name k
      rw [hleft, hright] at hat
      exact absurd (hat.symm.trans hk) nofun
    | some b =>
      refine congrArg some (hinj a b (hm name a hleft) (hn name b hright) fun k => ?_)
      have hat := h name k
      rw [hleft, hright] at hat
      exact hat

end

end NameMap
end Reports
end FirmwareTests
