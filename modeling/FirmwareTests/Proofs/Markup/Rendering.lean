import FirmwareTests.Proofs.Markup.Spelling

/-!
# Rows of tokens and their renderings

A row of legible tokens without two texts side by side is scanned from its rendering.
The tokens of a document are such a row once they are in their usual spelling, and the
row stays one when one of its tags is replaced.
-/

namespace FirmwareTests
namespace Markup

open Text

def Token.isText : Token → Bool
  | text _ => true
  | _ => false

@[simp] theorem Token.isText_usual (t : Token) : t.usual.isText = t.isText := by
  cases t <;> rfl

/-- A row of legible tokens without two texts side by side. -/
def Spelled : List Token → Prop
  | [] => True
  | t :: ts => t.Legible ∧ (t.isText = true → ∀ u ∈ ts.head?, u.isText = false) ∧ Spelled ts

theorem Spells.isText_eq_false {token : Token} {written : List Char} (h : Spells token written) :
    token.isText = false := by
  cases h with
  | close => rfl
  | instruction => rfl
  | @tag text =>
    unfold tagToken
    split <;> rfl
  | @bang kind c text token hkind hwhole htoken =>
    cases kind with
    | comment =>
      obtain ⟨_, -, rfl⟩ := BangKind.token_comment_eq_ok_iff.mp htoken
      rfl
    | cdata =>
      obtain ⟨_, -, rfl⟩ := BangKind.token_cdata_eq_ok_iff.mp htoken
      rfl
    | doctype =>
      obtain ⟨_, -, -, rfl⟩ := BangKind.token_doctype_eq_ok_iff.mp htoken
      rfl

theorem Unfinished.isText_eq_false {token : Token} {written : List Char}
    (h : Unfinished token written) : token.isText = false := by
  cases h <;> rfl

theorem Token.Legible.exists_spells {t : Token} (h : t.Legible) (htext : t.isText = false) :
    ∃ written, t.render = '<' :: written ∧ Spells t written := by
  cases t with
  | text raw => cases htext
  | _ => exact h

theorem Token.Legible.render_ne_nil {t : Token} (h : t.Legible) : t.render ≠ [] := by
  by_cases htext : t.isText = true
  · cases t with
    | text raw => exact h.1
    | _ => cases htext
  · rw [Bool.not_eq_true] at htext
    obtain ⟨written, hrender, -⟩ := h.exists_spells htext
    rw [hrender]
    exact List.cons_ne_nil _ _

theorem Spelled.render_eq_nil_iff {ts : List Token} (h : Spelled ts) :
    render ts = [] ↔ ts = [] := by
  cases ts with
  | nil => simp
  | cons t ts => simp [h.1.render_ne_nil]

/-! ### From a row to its tokens -/

theorem scans_render {ts : List Token} (h : Spelled ts) (position : Nat) :
    ∃ located, Scans position (render ts) located ∧ located.map Located.token = ts := by
  induction ts generalizing position with
  | nil => exact ⟨[], .nil position, rfl⟩
  | cons t ts ih =>
    obtain ⟨hlegible, hnext, hrest⟩ := h
    by_cases htext : t.isText = true
    · obtain ⟨raw, rfl⟩ : ∃ raw, t = .text raw := by
        cases t with
        | text raw => exact ⟨raw, rfl⟩
        | _ => cases htext
      obtain ⟨hne, hnot⟩ := hlegible
      rw [render_cons, Token.render_text]
      cases ts with
      | nil =>
        rw [render_nil, List.append_nil]
        exact ⟨_, .lastText hne hnot, rfl⟩
      | cons u us =>
        obtain ⟨located, hscans, hlocated⟩ := ih hrest (position + byteLength raw)
        obtain ⟨written, hrender, -⟩ := hrest.1.exists_spells (hnext rfl u rfl)
        rw [render_cons, hrender, List.cons_append] at hscans ⊢
        exact ⟨_, .text hne hnot hscans, by rw [List.map_cons, hlocated]⟩
    · rw [Bool.not_eq_true] at htext
      obtain ⟨written, hrender, hspells⟩ := hlegible.exists_spells htext
      obtain ⟨located, hscans, rfl⟩ := ih hrest (position + 1 + byteLength written)
      rw [render_cons, hrender, List.cons_append]
      exact ⟨_, .markup hspells hscans, rfl⟩

/-! ### From a document to its row -/

theorem isText_head_of_scans {position : Nat} {cs : List Char} {ts : List Located}
    (h : Scans position ('<' :: cs) ts) : ∀ t ∈ ts.head?, t.token.isText = false := by
  generalize hcs : '<' :: cs = document at h
  cases h with
  | nil => cases hcs
  | bracket => simp
  | lastText hne hnot =>
    subst hcs
    simp at hnot
  | @text position raw cs' ts hne hnot _ =>
    cases raw with
    | nil => exact absurd rfl hne
    | cons c raw =>
      obtain ⟨rfl, -⟩ := List.cons.inj hcs
      simp at hnot
  | unfinished h => simpa using h.isText_eq_false
  | markup h _ => simpa using h.isText_eq_false

theorem spelled_of_scans {position : Nat} {cs : List Char} {ts : List Located}
    (h : Scans position cs ts) : Spelled ((ts.map Located.token).map Token.usual) := by
  induction h with
  | nil => trivial
  | bracket => trivial
  | lastText hne hnot => exact ⟨⟨hne, hnot⟩, by simp, trivial⟩
  | text hne hnot hscans ih =>
    refine ⟨⟨hne, hnot⟩, ?_, ih⟩
    intro _ u hu
    rw [List.map_map, List.head?_map] at hu
    obtain ⟨t, ht, rfl⟩ := Option.map_eq_some_iff.mp hu
    rw [Function.comp_apply]
    rw [Token.isText_usual]
    exact isText_head_of_scans hscans t ht
  | unfinished h => exact ⟨legible_of_unfinished h, by simp, trivial⟩
  | markup h _ ih =>
    refine ⟨legible_of_spells h, ?_, ih⟩
    intro htext
    rw [Token.isText_usual, h.isText_eq_false] at htext
    cases htext

/-! ### Changes to a row -/

theorem Spelled.tail {t : Token} {ts : List Token} (h : Spelled (t :: ts)) : Spelled ts :=
  h.2.2

theorem Spelled.legible {front : List Token} {t : Token} {back : List Token}
    (h : Spelled (front ++ t :: back)) : t.Legible := by
  induction front with
  | nil => exact h.1
  | cons u front ih => exact ih h.tail

theorem Spelled.replace {front : List Token} {t u : Token} {back : List Token}
    (h : Spelled (front ++ t :: back)) (hlegible : u.Legible) (htext : u.isText = false) :
    Spelled (front ++ u :: back) := by
  induction front with
  | nil => exact ⟨hlegible, by simp [htext], h.tail⟩
  | cons v front ih =>
    refine ⟨h.1, ?_, ih h.tail⟩
    intro hv
    cases front with
    | nil => simpa using htext
    | cons w front => exact h.2.1 hv

theorem Spelled.append_cons {ts us : List Token} {t : Token} (hts : Spelled ts)
    (hlegible : t.Legible) (htext : t.isText = false) (hus : Spelled us) :
    Spelled (ts ++ t :: us) := by
  induction ts with
  | nil => exact ⟨hlegible, by simp [htext], hus⟩
  | cons u ts ih =>
    refine ⟨hts.1, ?_, ih hts.tail⟩
    intro hu
    cases ts with
    | nil => simpa using htext
    | cons v ts => exact hts.2.1 hu

end Markup
end FirmwareTests
