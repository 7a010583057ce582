import FirmwareTests.Proofs.Reports.Progress
import FirmwareTests.Proofs.Reports.Titles

/-!
# Outlines

The outline of a document is its root with what stands before and after it. Only the
outline matters to retitling: the title goes between two texts that do not depend on it.
-/

namespace FirmwareTests
namespace Reports

open Markup

/-- A root with its attributes, and the tokens before and after it. -/
structure Outline where
  front : List Token
  root : Token
  attributes : List Attribute
  back : List Token
  deriving DecidableEq

namespace Outline

def tokensWith (o : Outline) (root : Token) : List Token :=
  o.front ++ root :: o.back

def titledTag (o : Outline) (title : List Char) : Tag :=
  .ofAttributes rootName (retitledAttributes title o.attributes)

def retitled (o : Outline) (title : List Char) : List Token :=
  o.tokensWith (o.root.withTag (o.titledTag title))

/-- Splits tokens at the first tag, which has to be that of a root that can be retitled. -/
def ofTokens? : List Token → Option Outline
  | [] => none
  | t :: ts =>
    match t.tag? with
    | some tag =>
      if tag.name = rootName then
        tag.attributes.all.toOption.map fun attributes => ⟨[], t, attributes, ts⟩
      else none
    | none => (ofTokens? ts).map fun o => { o with front := t :: o.front }

def ofDocument? (document : List Char) : Option Outline :=
  let reading := read document
  let tokens := reading.tokens.map Located.token
  if reading.ending = .complete ∧ openElements tokens = 0 then ofTokens? tokens else none

end Outline

/-! ### Outlines of tokens -/

theorem all_eq_ok_iff {list : AttributeList} {attributes : List Attribute} :
    list.all = .ok attributes ↔ list = ⟨attributes, none⟩ := by
  obtain ⟨attributes', fault⟩ := list
  cases fault <;> simp [AttributeList.all]

/-- An outline splits the tokens at the tag of a root. -/
structure Outline.Splits (o : Outline) (tag : Tag) (ts : List Token) : Prop where
  tokens : o.tokensWith o.root = ts
  tagless : ∀ t ∈ o.front, t.tag? = none
  rootTag : o.root.tag? = some tag
  name : tag.name = rootName
  attributes : tag.attributes = ⟨o.attributes, none⟩

theorem Outline.Splits.ofTokens? {o : Outline} {tag : Tag} {ts : List Token}
    (h : o.Splits tag ts) : Outline.ofTokens? ts = some o := by
  obtain ⟨front, root, attributes, back⟩ := o
  obtain ⟨rfl, htagless, htag, hname, hattributes⟩ := h
  simp only [tokensWith] at htagless htag hattributes ⊢
  induction front with
  | nil =>
    rw [List.nil_append, Outline.ofTokens?, htag]
    simp [hname, all_eq_ok_iff.mpr hattributes]
  | cons t front ih =>
    have hrest := ih fun u hu => htagless u (List.mem_cons_of_mem t hu)
    rw [List.cons_append, Outline.ofTokens?, htagless t List.mem_cons_self, hrest]
    rfl

theorem Outline.exists_splits {ts : List Token} {o : Outline} (h : ofTokens? ts = some o) :
    ∃ tag, o.Splits tag ts := by
  induction ts generalizing o with
  | nil => cases h
  | cons t ts ih =>
    rw [ofTokens?] at h
    split at h
    · next tag htag =>
      split at h
      · next hname =>
        obtain ⟨attributes, hattributes, rfl⟩ := Option.map_eq_some_iff.mp h
        rw [toOption_eq_some_iff] at hattributes
        exact ⟨tag, rfl, by simp, htag, hname, all_eq_ok_iff.mp hattributes⟩
      · cases h
    · next htag =>
      obtain ⟨o', ho', rfl⟩ := Option.map_eq_some_iff.mp h
      obtain ⟨tag, hsplits⟩ := ih ho'
      refine ⟨tag, ?_, ?_, hsplits.rootTag, hsplits.name, hsplits.attributes⟩
      · rw [← hsplits.tokens]
        rfl
      · intro u hu
        rcases List.mem_cons.mp hu with rfl | hu
        · exact htag
        · exact hsplits.tagless u hu

theorem Outline.ofDocument?_eq_some_iff {document : List Char} {o : Outline} :
    ofDocument? document = some o ↔ ∃ ts tag, read document = ⟨ts, .complete⟩ ∧
      openElements (ts.map Located.token) = 0 ∧ o.Splits tag (ts.map Located.token) := by
  unfold ofDocument?
  dsimp only
  constructor
  · intro h
    split at h
    · next hclosed =>
      obtain ⟨tag, hsplits⟩ := exists_splits h
      exact ⟨_, tag, by rw [← hclosed.1], hclosed.2, hsplits⟩
    · cases h
  · rintro ⟨ts, tag, hread, hclosed, hsplits⟩
    rw [hread, if_pos ⟨rfl, hclosed⟩]
    exact hsplits.ofTokens?

theorem Outline.Splits.findSome?_tag {o : Outline} {tag : Tag} {ts : List Token}
    (h : o.Splits tag ts) : ts.findSome? Token.tag? = some tag := by
  have hfront : o.front.findSome? Token.tag? = none := List.findSome?_eq_none_iff.mpr h.tagless
  rw [← h.tokens, Outline.tokensWith, List.findSome?_append, hfront, Option.none_or,
    List.findSome?_cons, h.rootTag]

def rootTag? (document : List Char) : Option Tag :=
  (read document).tokens.findSome? fun t => t.token.tag?

theorem rootTag?_eq_some {document : List Char} {ts : List Located} {o : Outline} {tag : Tag}
    (hread : read document = ⟨ts, .complete⟩) (h : o.Splits tag (ts.map Located.token)) :
    rootTag? document = some tag := by
  have htokens := h.findSome?_tag
  rw [List.findSome?_map] at htokens
  rw [rootTag?, hread]
  exact htokens

/-! ### Outlines and retitling -/

theorem toOption_retitledTag (title : List Char) (tag : Tag) (position : Nat) :
    (retitledTag title tag position).toOption =
      if tag.name = rootName then
        tag.attributes.all.toOption.map fun attributes =>
          .ofAttributes rootName (retitledAttributes title attributes)
      else none := by
  unfold retitledTag
  split
  · cases tag.attributes.all <;> rfl
  · rfl

theorem retitledTokens_of_tag (title : List Char) {t : Located} {tag : Tag}
    (h : t.token.tag? = some tag) (ts : List Located) :
    retitledTokens title (t :: ts) =
      (fun new => some (t.token.withTag new :: ts.map Located.token)) <$>
        retitledTag title tag t.position := by
  obtain ⟨token, position⟩ := t
  cases token with
  | start tag' | empty tag' =>
    cases h
    rw [retitledTokens]
    dsimp only
    cases retitledTag title tag position <;> rfl
  | _ => cases h

theorem retitledTokens_of_tagless (title : List Char) {t : Located} (h : t.token.tag? = none)
    (ts : List Located) : retitledTokens title (t :: ts) =
      (fun rest? => rest?.map (t.token :: ·)) <$> retitledTokens title ts := by
  obtain ⟨token, position⟩ := t
  cases token with
  | start tag' | empty tag' => cases h
  | _ =>
    rw [retitledTokens]
    dsimp only
    cases retitledTokens title ts <;> rfl

theorem toOption_retitledTokens (title : List Char) (ts : List Located) :
    (retitledTokens title ts).toOption.join =
      (Outline.ofTokens? (ts.map Located.token)).map fun o => o.retitled title := by
  induction ts with
  | nil => rfl
  | cons t ts ih =>
    rw [List.map_cons, Outline.ofTokens?]
    split
    · next tag htag =>
      rw [retitledTokens_of_tag title htag, toOption_map, toOption_retitledTag]
      split
      · cases tag.attributes.all <;> rfl
      · rfl
    · next htag =>
      rw [retitledTokens_of_tagless title htag, toOption_map]
      have hjoin : ((retitledTokens title ts).toOption.map
          (fun rest? => rest?.map (t.token :: ·))).join =
          (retitledTokens title ts).toOption.join.map (t.token :: ·) := by
        cases (retitledTokens title ts).toOption <;> rfl
      rw [hjoin, ih, Option.map_map, Option.map_map]
      rfl

theorem openElements_retitled (o : Outline) (title : List Char) :
    openElements (o.retitled title) = openElements (o.tokensWith o.root) := by
  simp [openElements, Outline.retitled, Outline.tokensWith]

theorem toOption_retitleReading (title : List Char) (reading : Reading) :
    (retitleReading title reading).toOption =
      if reading.ending = .complete then
        (retitledTokens title reading.tokens).toOption.join.bind fun tokens =>
          if openElements tokens = 0 then some (render tokens) else none
      else none := by
  unfold retitleReading
  rw [toOption_bind]
  cases hending : reading.ending with
  | broken fault => cases (retitledTokens title reading.tokens).toOption <;> rfl
  | complete =>
    rw [if_pos rfl]
    cases (retitledTokens title reading.tokens).toOption with
    | none => rfl
    | some tokens? =>
      cases tokens? with
      | none => rfl
      | some tokens =>
        simp only [Option.bind_some, Option.join_some]
        split <;> rfl

theorem toOption_retitle (title document : List Char) :
    (retitle title document).toOption =
      (Outline.ofDocument? document).map fun o => render (o.retitled title) := by
  unfold retitle Outline.ofDocument?
  rw [toOption_retitleReading, toOption_retitledTokens]
  dsimp only
  by_cases hending : (read document).ending = .complete
  · simp only [hending, true_and, if_true]
    cases ho : Outline.ofTokens? ((read document).tokens.map Located.token) with
    | none => simp
    | some o =>
      obtain ⟨tag, hsplits⟩ := Outline.exists_splits ho
      rw [Option.map_some, Option.bind_some, openElements_retitled, hsplits.tokens]
      split <;> rfl
  · simp [hending]

end Reports
end FirmwareTests
