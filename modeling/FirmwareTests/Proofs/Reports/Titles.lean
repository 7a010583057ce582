import FirmwareTests.Proofs.Markup.AttributeRow
import FirmwareTests.Proofs.Markup.Escaping
import FirmwareTests.Reports.Retitle

/-!
# Titles among the attributes

Keys are all different, so a retitled row of attributes is the old one with one
attribute put between those before the title and those after it. Neither part depends on
the title.
-/

namespace FirmwareTests
namespace Reports

open Markup

def titleAttribute (title : List Char) : Attribute :=
  ⟨titleKey, escape title⟩

theorem titleKey_eq : titleKey = ['n', 'a', 'm', 'e'] := rfl

theorem isKey_titleKey : IsKey titleKey := by
  simp [titleKey_eq, IsKey, endsKey, isSpace]

theorem legible_titleAttribute (title : List Char) : (titleAttribute title).Legible := by
  have hkey : ∀ c ∈ titleKey, isQuote c = false := by simp [titleKey_eq, isQuote]
  have hbracket : '>' ∉ titleKey := by decide
  exact ⟨⟨hkey, quote_notMem_escape title⟩, hbracket⟩

/-- The attributes before the title, or all of them when there is none. -/
def beforeTitle (attributes : List Attribute) : List Attribute :=
  attributes.takeWhile fun a => a.key != titleKey

def afterTitle (attributes : List Attribute) : List Attribute :=
  (attributes.dropWhile fun a => a.key != titleKey).drop 1

theorem attributes_cases (attributes : List Attribute) :
    (∀ a ∈ attributes, a.key ≠ titleKey) ∨ ∃ before value after,
      attributes = before ++ ⟨titleKey, value⟩ :: after ∧ ∀ a ∈ before, a.key ≠ titleKey := by
  induction attributes with
  | nil => simp
  | cons a attributes ih =>
    by_cases ha : a.key = titleKey
    · right
      obtain ⟨key, value⟩ := a
      obtain rfl : key = titleKey := ha
      exact ⟨[], value, attributes, rfl, by simp⟩
    · rcases ih with hnone | ⟨before, value, after, rfl, hbefore⟩
      · left
        intro b hb
        rcases List.mem_cons.mp hb with rfl | hb
        · exact ha
        · exact hnone b hb
      · right
        refine ⟨a :: before, value, after, rfl, ?_⟩
        intro b hb
        rcases List.mem_cons.mp hb with rfl | hb
        · exact ha
        · exact hbefore b hb

theorem forall_bne_of_forall_ne {attributes : List Attribute}
    (h : ∀ a ∈ attributes, a.key ≠ titleKey) : ∀ a ∈ attributes, (a.key != titleKey) = true :=
  fun a ha => bne_iff_ne.mpr (h a ha)

section

variable {attributes before after : List Attribute} {value : List Char}

theorem beforeTitle_append (h : ∀ a ∈ before, a.key ≠ titleKey) :
    beforeTitle (before ++ ⟨titleKey, value⟩ :: after) = before :=
  takeWhile_append_stop (forall_bne_of_forall_ne h) (bne_self_eq_false titleKey) after

theorem afterTitle_append (h : ∀ a ∈ before, a.key ≠ titleKey) :
    afterTitle (before ++ ⟨titleKey, value⟩ :: after) = after := by
  unfold afterTitle
  rw [dropWhile_append_stop (forall_bne_of_forall_ne h) (bne_self_eq_false titleKey)]
  rfl

theorem beforeTitle_of_forall_ne (h : ∀ a ∈ attributes, a.key ≠ titleKey) :
    beforeTitle attributes = attributes :=
  List.takeWhile_eq_self_iff.mpr (forall_bne_of_forall_ne h)

theorem afterTitle_of_forall_ne (h : ∀ a ∈ attributes, a.key ≠ titleKey) :
    afterTitle attributes = [] := by
  unfold afterTitle
  rw [List.dropWhile_eq_nil_iff.mpr (forall_bne_of_forall_ne h)]
  rfl

theorem forall_ne_before
    (hnodup : ((before ++ ⟨titleKey, value⟩ :: after).map Attribute.key).Nodup) :
    ∀ a ∈ before, a.key ≠ titleKey := by
  rw [List.map_append, List.map_cons, List.nodup_append] at hnodup
  obtain ⟨-, -, hapart⟩ := hnodup
  intro a ha
  exact hapart a.key (List.mem_map_of_mem ha) titleKey List.mem_cons_self

theorem forall_ne_after
    (hnodup : ((before ++ ⟨titleKey, value⟩ :: after).map Attribute.key).Nodup) :
    ∀ a ∈ after, a.key ≠ titleKey := by
  rw [List.map_append, List.map_cons, List.nodup_append] at hnodup
  obtain ⟨-, htail, -⟩ := hnodup
  intro a ha heq
  exact (List.nodup_cons.mp htail).1 (List.mem_map.mpr ⟨a, ha, heq⟩)

end

theorem map_retitled_eq_self {attributes : List Attribute} (new : Attribute)
    (h : ∀ a ∈ attributes, a.key ≠ titleKey) :
    attributes.map (fun a => if a.key = titleKey then new else a) = attributes := by
  have hself : ∀ a ∈ attributes, (if a.key = titleKey then new else a) = a := by
    intro a ha
    rw [if_neg (h a ha)]
  rw [List.map_congr_left hself, List.map_id']

variable {attributes : List Attribute}

/-- The title is put between two parts that do not depend on it. -/
theorem retitledAttributes_eq (hnodup : (attributes.map Attribute.key).Nodup)
    (title : List Char) : retitledAttributes title attributes =
      beforeTitle attributes ++ titleAttribute title :: afterTitle attributes := by
  unfold retitledAttributes
  rcases attributes_cases attributes with hnone | ⟨before, value, after, rfl, hbefore⟩
  · have hany : (attributes.any fun a => a.key == titleKey) = false := by
      simpa using hnone
    rw [beforeTitle_of_forall_ne hnone, afterTitle_of_forall_ne hnone, hany]
    rfl
  · have hany : ((before ++ ⟨titleKey, value⟩ :: after).any fun a => a.key == titleKey) = true := by
      simp
    rw [beforeTitle_append hbefore, afterTitle_append hbefore, hany, if_pos rfl,
      List.map_append, List.map_cons, map_retitled_eq_self _ hbefore,
      map_retitled_eq_self _ (forall_ne_after hnodup), if_pos rfl]
    rfl

/-- What is not before or after the title is the old title. -/
theorem exists_eq_before_after (attributes : List Attribute) : ∃ old,
    attributes = beforeTitle attributes ++ old ++ afterTitle attributes ∧
      ∀ a ∈ old, a.key = titleKey := by
  rcases attributes_cases attributes with hnone | ⟨before, value, after, rfl, hbefore⟩
  · refine ⟨[], ?_, by simp⟩
    rw [beforeTitle_of_forall_ne hnone, afterTitle_of_forall_ne hnone]
    simp
  · refine ⟨[⟨titleKey, value⟩], ?_, by simp⟩
    rw [beforeTitle_append hbefore, afterTitle_append hbefore]
    simp

theorem key_ne_of_mem_beforeTitle {a : Attribute} (h : a ∈ beforeTitle attributes) :
    a.key ≠ titleKey := by
  simpa using List.all_eq_true.mp (List.all_takeWhile (l := attributes)) a h

theorem key_ne_of_mem_afterTitle (hnodup : (attributes.map Attribute.key).Nodup) {a : Attribute}
    (h : a ∈ afterTitle attributes) : a.key ≠ titleKey := by
  rcases attributes_cases attributes with hnone | ⟨before, value, after, rfl, hbefore⟩
  · rw [afterTitle_of_forall_ne hnone] at h
    cases h
  · rw [afterTitle_append hbefore] at h
    exact forall_ne_after hnodup a h

section

variable (hnodup : (attributes.map Attribute.key).Nodup) (title : List Char)
include hnodup

theorem beforeTitle_retitledAttributes :
    beforeTitle (retitledAttributes title attributes) = beforeTitle attributes := by
  rw [retitledAttributes_eq hnodup]
  exact beforeTitle_append fun a ha => key_ne_of_mem_beforeTitle ha

theorem afterTitle_retitledAttributes :
    afterTitle (retitledAttributes title attributes) = afterTitle attributes := by
  rw [retitledAttributes_eq hnodup]
  exact afterTitle_append fun a ha => key_ne_of_mem_beforeTitle ha

theorem forall_mem_retitledAttributes {P : Attribute → Prop} (hnew : P (titleAttribute title))
    (hold : ∀ a ∈ attributes, P a) : ∀ a ∈ retitledAttributes title attributes, P a := by
  obtain ⟨old, heq, -⟩ := exists_eq_before_after attributes
  intro a ha
  rw [retitledAttributes_eq hnodup, List.mem_append, List.mem_cons] at ha
  rcases ha with ha | rfl | ha
  · apply hold
    rw [heq]
    exact List.mem_append_left _ (List.mem_append_left _ ha)
  · exact hnew
  · apply hold
    rw [heq]
    exact List.mem_append_right _ ha

theorem nodup_retitledAttributes :
    ((retitledAttributes title attributes).map Attribute.key).Nodup := by
  obtain ⟨old, heq, -⟩ := exists_eq_before_after attributes
  have hsub : (beforeTitle attributes ++ afterTitle attributes).Sublist attributes := by
    have hskip : (beforeTitle attributes ++ afterTitle attributes).Sublist
        (beforeTitle attributes ++ (old ++ afterTitle attributes)) :=
      (List.sublist_append_right old _).append_left _
    rwa [← List.append_assoc, ← heq] at hskip
  have hrest := (hsub.map Attribute.key).nodup hnodup
  rw [retitledAttributes_eq hnodup, List.map_append, List.map_cons, List.perm_middle.nodup_iff,
    List.nodup_cons, ← List.map_append]
  refine ⟨?_, hrest⟩
  intro hmem
  obtain ⟨a, ha, hkey⟩ := List.mem_map.mp hmem
  rcases List.mem_append.mp ha with ha | ha
  · exact key_ne_of_mem_beforeTitle ha hkey
  · exact key_ne_of_mem_afterTitle hnodup ha hkey

theorem find?_retitledAttributes_title :
    (retitledAttributes title attributes).find? (fun a => a.key == titleKey) =
      some (titleAttribute title) := by
  have hbefore : (beforeTitle attributes).find? (fun a => a.key == titleKey) = none := by
    rw [List.find?_eq_none]
    intro a ha
    simpa using key_ne_of_mem_beforeTitle ha
  rw [retitledAttributes_eq hnodup, List.find?_append, hbefore, List.find?_cons]
  simp [titleAttribute]

theorem find?_retitledAttributes_of_ne {key : List Char} (hkey : key ≠ titleKey) :
    (retitledAttributes title attributes).find? (fun a => a.key == key) =
      attributes.find? fun a => a.key == key := by
  obtain ⟨old, heq, hold⟩ := exists_eq_before_after attributes
  have hnone : old.find? (fun a => a.key == key) = none := by
    rw [List.find?_eq_none]
    intro a ha
    rw [hold a ha]
    simpa using Ne.symm hkey
  have hnew : ((titleAttribute title).key == key) = false := by
    simpa [titleAttribute] using Ne.symm hkey
  calc (retitledAttributes title attributes).find? (fun a => a.key == key)
      = (beforeTitle attributes ++ titleAttribute title :: afterTitle attributes).find?
          (fun a => a.key == key) := by rw [retitledAttributes_eq hnodup]
    _ = (beforeTitle attributes ++ old ++ afterTitle attributes).find?
          (fun a => a.key == key) := by simp [hnew, hnone]
    _ = attributes.find? (fun a => a.key == key) := by rw [← heq]

end

end Reports
end FirmwareTests
