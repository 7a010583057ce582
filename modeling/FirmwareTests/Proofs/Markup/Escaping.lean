import FirmwareTests.Markup.Entity
import FirmwareTests.Proofs.Markup.Boundary

/-!
# Escaped texts

An escaped text is read back as the text, and of the characters that have an entity of
their own only the ampersand occurs in it. Of two texts whose entities can be replaced the
one behind the other makes a text of that kind.
-/

namespace FirmwareTests
namespace Markup

open Text

theorem escapeChar_eq_self {c : Char} (h : c ∉ ['<', '>', '\'', '&', '"']) :
    escapeChar c = [c] := by
  simp only [List.mem_cons, List.not_mem_nil, or_false, not_or] at h
  unfold escapeChar
  split <;> simp_all

/-- A character is written as its entity when it has one, and as itself otherwise. -/
theorem escapeChar_cases (c : Char) :
    (∃ name, escapeChar c = '&' :: (name ++ [';']) ∧
        (∀ d ∈ name, endsEntity d = false ∧ d ∉ ['<', '>', '\'', '"']) ∧
        ∀ position, entityChar position name = .ok c) ∨
      escapeChar c = [c] ∧ c ∉ ['<', '>', '\'', '&', '"'] := by
  by_cases hc : c ∈ ['<', '>', '\'', '&', '"']
  · left
    simp only [List.mem_cons, List.not_mem_nil, or_false] at hc
    rcases hc with rfl | rfl | rfl | rfl | rfl
    · exact ⟨['l', 't'], rfl, by simp [endsEntity], fun _ => rfl⟩
    · exact ⟨['g', 't'], rfl, by simp [endsEntity], fun _ => rfl⟩
    · exact ⟨['a', 'p', 'o', 's'], rfl, by simp [endsEntity], fun _ => rfl⟩
    · exact ⟨['a', 'm', 'p'], rfl, by simp [endsEntity], fun _ => rfl⟩
    · exact ⟨['q', 'u', 'o', 't'], rfl, by simp [endsEntity], fun _ => rfl⟩
  · exact .inr ⟨escapeChar_eq_self hc, hc⟩

theorem unescapeFrom_cons {c : Char} (hc : c ≠ '&') (position : Nat) (cs : List Char) :
    unescapeFrom position (c :: cs) =
      (unescapeFrom (position + c.utf8Size) cs).map (c :: ·) := by
  rw [unescapeFrom, if_neg hc]
  cases unescapeFrom (position + c.utf8Size) cs <;> rfl

/-- An entity runs from its ampersand to its semicolon, whatever it stands for. -/
theorem unescapeFrom_ampersand {name : List Char} (hname : ∀ d ∈ name, endsEntity d = false)
    (position : Nat) (cs : List Char) :
    unescapeFrom position ('&' :: (name ++ ';' :: cs)) = (do
      let c ← entityChar position name
      let more ← unescapeFrom (position + byteLength name + 2) cs
      return c :: more) := by
  have hbody : ∀ d ∈ name, (!endsEntity d) = true := by
    intro d hd
    rw [hname d hd]
    rfl
  have htake := takeWhile_append_stop hbody (s := ';') rfl cs
  have hdrop := dropWhile_append_stop hbody (s := ';') rfl cs
  rw [unescapeFrom, if_pos rfl]
  dsimp only
  split
  · next rest h =>
    rw [hdrop] at h
    obtain ⟨-, rfl⟩ := List.cons.inj h
    rw [htake]
  · next h => exact absurd hdrop (h cs)

theorem unescapeFrom_entity {name : List Char} {c : Char}
    (hname : ∀ d ∈ name, endsEntity d = false) {position : Nat}
    (hentity : entityChar position name = .ok c) (cs : List Char) :
    unescapeFrom position ('&' :: (name ++ ';' :: cs)) =
      (unescapeFrom (position + byteLength name + 2) cs).map (c :: ·) := by
  rw [unescapeFrom_ampersand hname, hentity]
  cases unescapeFrom (position + byteLength name + 2) cs <;> rfl

theorem unescapeFrom_escape (cs : List Char) (position : Nat) :
    unescapeFrom position (escape cs) = .ok cs := by
  induction cs generalizing position with
  | nil =>
    rw [escape_nil, unescapeFrom]
  | cons c cs ih =>
    rw [escape_cons]
    rcases escapeChar_cases c with ⟨name, hescape, hname, hentity⟩ | ⟨hescape, hplain⟩
    · rw [hescape, List.cons_append, List.append_assoc, List.singleton_append,
        unescapeFrom_entity (fun d hd => (hname d hd).1) (hentity position), ih]
      rfl
    · have hc : c ≠ '&' := by
        rintro rfl
        exact hplain (by decide)
      rw [hescape, List.singleton_append, unescapeFrom_cons hc, ih]
      rfl

theorem unescape_escape (cs : List Char) : unescape (escape cs) = .ok cs :=
  unescapeFrom_escape cs 0

/-- Characters that are written as their entities do not occur in an escaped text. -/
theorem notMem_escape {d : Char} (hd : d ∈ ['<', '>', '\'', '"']) (cs : List Char) :
    d ∉ escape cs := by
  intro hmem
  obtain ⟨c, -, hc⟩ := List.mem_flatMap.mp hmem
  rcases escapeChar_cases c with ⟨name, hescape, hname, -⟩ | ⟨hescape, hplain⟩
  · rw [hescape, List.mem_cons, List.mem_append, List.mem_singleton] at hc
    rcases hc with rfl | hc | rfl
    · revert hd
      decide
    · exact (hname d hc).2 hd
    · revert hd
      decide
  · rw [hescape, List.mem_singleton] at hc
    subst hc
    refine hplain ?_
    simp only [List.mem_cons, List.not_mem_nil, or_false] at hd
    rcases hd with rfl | rfl | rfl | rfl <;> decide

theorem quote_notMem_escape (cs : List Char) : '"' ∉ escape cs :=
  notMem_escape (by decide) cs

/-! ### Texts whose entities are replaced -/

theorem referencedChar_eq_ok {start stop : Nat} {number : List Char} {c : Char}
    (h : referencedChar start stop number = .ok c) (start' stop' : Nat) :
    referencedChar start' stop' number = .ok c := by
  unfold referencedChar at h ⊢
  cases hvalue : referenceValue number with
  | error fault =>
    rw [hvalue] at h
    cases h
  | ok n =>
    rw [hvalue] at h
    by_cases hn : n = 0
    · subst hn
      cases h
    · dsimp only [bind, Except.bind] at h ⊢
      rwa [if_neg hn] at h ⊢

theorem entityChar_eq_ok {position : Nat} {body : List Char} {c : Char}
    (h : entityChar position body = .ok c) (other : Nat) : entityChar other body = .ok c := by
  unfold entityChar at h ⊢
  dsimp only at h ⊢
  split at h
  · exact referencedChar_eq_ok h _ _
  · split at h
    · exact h
    · cases h

/-- Texts whose entities can be replaced, with what comes out. -/
inductive Unescapes : List Char → List Char → Prop
  | nil : Unescapes [] []
  | char {c : Char} {cs out : List Char} : c ≠ '&' → Unescapes cs out →
      Unescapes (c :: cs) (c :: out)
  | entity {name : List Char} {c : Char} {cs out : List Char} :
      (∀ d ∈ name, endsEntity d = false) → (∀ position, entityChar position name = .ok c) →
      Unescapes cs out → Unescapes ('&' :: (name ++ ';' :: cs)) (c :: out)

theorem Unescapes.unescapeFrom_eq {cs out : List Char} (h : Unescapes cs out) (position : Nat) :
    unescapeFrom position cs = .ok out := by
  induction h generalizing position with
  | nil => rw [unescapeFrom]
  | char hc _ ih =>
    rw [unescapeFrom_cons hc, ih]
    rfl
  | entity hname hentity _ ih =>
    rw [unescapeFrom_entity hname (hentity position), ih]
    rfl

theorem unescapes_of_unescapeFrom {position : Nat} {cs out : List Char}
    (h : unescapeFrom position cs = .ok out) : Unescapes cs out := by
  induction position, cs using unescapeFrom.induct generalizing out with
  | case1 position =>
    rw [unescapeFrom] at h
    cases h
    exact .nil
  | case2 position cs name rest hrest hlt =>
    rename_i ih
    have hname : ∀ d ∈ name, endsEntity d = false := by
      intro d hd
      simpa using List.mem_takeWhile_imp hd
    have hcs : cs = name ++ ';' :: rest := by
      rw [← hrest]
      exact List.takeWhile_append_dropWhile.symm
    rw [hcs, unescapeFrom_ampersand hname] at h
    cases hentity : entityChar position name with
    | error fault =>
      rw [hentity] at h
      cases h
    | ok c =>
      cases hmore : unescapeFrom (position + byteLength name + 2) rest with
      | error fault =>
        rw [hentity, hmore] at h
        cases h
      | ok more =>
        rw [hentity, hmore] at h
        cases h
        rw [hcs]
        exact .entity hname (entityChar_eq_ok hentity) (ih hmore)
  | case3 position cs hrest =>
    rw [unescapeFrom, if_pos rfl] at h
    dsimp only at h
    split at h
    · next rest heq => exact (hrest rest heq).elim
    · cases h
  | case4 position c cs hc ih =>
    rw [unescapeFrom_cons hc] at h
    cases hmore : unescapeFrom (position + c.utf8Size) cs with
    | error fault =>
      rw [hmore] at h
      cases h
    | ok more =>
      rw [hmore] at h
      cases h
      exact .char hc (ih hmore)

theorem Unescapes.append {cs ds out more : List Char} (h : Unescapes cs out)
    (h' : Unescapes ds more) : Unescapes (cs ++ ds) (out ++ more) := by
  induction h with
  | nil => exact h'
  | char hc _ ih => exact .char hc ih
  | entity hname hentity _ ih =>
    rw [List.cons_append, List.append_assoc]
    exact .entity hname hentity ih

end Markup
end FirmwareTests
