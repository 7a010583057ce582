import FirmwareTests.Proofs.Markup.Nesting

/-!
# The trees of a document

A row of tokens whose elements are all closed is read as a forest: elements with the
forests inside them, and every other token as a leaf. The forest is built from the right,
with one level for each element that is still to be opened.
-/

namespace FirmwareTests
namespace Markup

/-- Leaves and elements in the order in which they stand. -/
inductive Forest where
  | nil
  | leaf (token : Token) (rest : Forest)
  | element (tag : Tag) (content rest : Forest)
  deriving DecidableEq

/-- An element: its tag and what stands inside it. -/
structure Element where
  tag : Tag
  content : Forest
  deriving DecidableEq

def Element.name (e : Element) : List Char :=
  e.tag.name

namespace Forest

/-- The elements of a forest that are inside no other. -/
def elements : Forest → List Element
  | nil => []
  | leaf _ rest => rest.elements
  | element tag content rest => ⟨tag, content⟩ :: rest.elements

/-- The leaves of a forest that are inside no element. -/
def leaves : Forest → List Token
  | nil => []
  | leaf token rest => token :: rest.leaves
  | element _ _ rest => rest.leaves

/-- The elements of a forest that have a name and are inside no other. -/
def named (f : Forest) (name : String) : List Element :=
  f.elements.filter fun e => e.name == name.toList

def append : Forest → Forest → Forest
  | nil, g => g
  | leaf token rest, g => leaf token (rest.append g)
  | element tag content rest, g => element tag content (rest.append g)

@[simp] theorem append_nil (f : Forest) : f.append nil = f := by
  induction f with
  | nil => rfl
  | leaf token rest ih => rw [append, ih]
  | element tag content rest _ ih => rw [append, ih]

@[simp] theorem elements_append (f g : Forest) :
    (f.append g).elements = f.elements ++ g.elements := by
  induction f with
  | nil => rfl
  | leaf token rest ih => exact ih
  | element tag content rest _ ih => simp [append, elements, ih]

section

variable {tag : Tag} {content rest : Forest} {name : String}

theorem named_element (h : tag.name = name.toList) :
    (element tag content rest).named name = ⟨tag, content⟩ :: rest.named name :=
  List.filter_cons_of_pos (beq_iff_eq.mpr h)

theorem named_element_of_ne (h : tag.name ≠ name.toList) :
    (element tag content rest).named name = rest.named name :=
  List.filter_cons_of_neg fun heq => h (beq_iff_eq.mp heq)

end

/-- The forests from a point of a row on, one for each level, innermost first. -/
def levels : List Token → List Forest
  | [] => [nil]
  | t :: ts =>
    match t, levels ts with
    | .start tag, content :: rest :: outer => element tag content rest :: outer
    | .empty tag, rest :: outer => element tag nil rest :: outer
    | .close _, forests => nil :: forests
    | .start _, forests => forests
    | t, rest :: outer => leaf t rest :: outer
    | _, [] => []

def ofTokens (ts : List Token) : Forest :=
  (levels ts).headD nil

end Forest

def Token.isLeaf : Token → Bool
  | start _ | empty _ | close _ => false
  | _ => true

/-- The rows of tokens that a forest is read from. -/
inductive Nests : List Token → Forest → Prop
  | nil : Nests [] .nil
  | leaf {t : Token} {ts : List Token} {rest : Forest} :
      t.isLeaf = true → Nests ts rest → Nests (t :: ts) (.leaf t rest)
  | empty {tag : Tag} {ts : List Token} {rest : Forest} :
      Nests ts rest → Nests (.empty tag :: ts) (.element tag .nil rest)
  | element {tag : Tag} {close : EndTag} {inner ts : List Token} {content rest : Forest} :
      Nests inner content → Nests ts rest →
      Nests (.start tag :: (inner ++ .close close :: ts)) (.element tag content rest)

theorem Nests.append {ts us : List Token} {f g : Forest} (hf : Nests ts f) (hg : Nests us g) :
    Nests (ts ++ us) (f.append g) := by
  induction hf with
  | nil => exact hg
  | leaf hleaf _ ih => exact .leaf hleaf ih
  | empty _ ih => exact .empty ih
  | element hcontent _ _ ih =>
    rw [List.cons_append, List.append_assoc, List.cons_append]
    exact .element hcontent ih

namespace Forest

theorem levels_of_isLeaf {t : Token} (h : t.isLeaf = true) {ts : List Token} {rest : Forest}
    {outer : List Forest} (hlevels : levels ts = rest :: outer) :
    levels (t :: ts) = leaf t rest :: outer := by
  cases t with
  | start | empty | close => cases h
  | _ => simp only [levels, hlevels]

/-- A nested row in front adds its trees to the innermost level. -/
theorem levels_append {ts us : List Token} {f rest : Forest} {outer : List Forest}
    (h : Nests ts f) (hlevels : levels us = rest :: outer) :
    levels (ts ++ us) = f.append rest :: outer := by
  induction h generalizing us rest outer with
  | nil => exact hlevels
  | leaf hleaf _ ih => exact levels_of_isLeaf hleaf (ih hlevels)
  | empty _ ih =>
    simp only [List.cons_append, levels, ih hlevels, append]
  | @element tag close inner ts content rest' hcontent _ ihcontent ih =>
    have hinner : levels (inner ++ .close close :: (ts ++ us)) =
        content :: rest'.append rest :: outer := by
      have hclose : levels (.close close :: (ts ++ us)) = nil :: rest'.append rest :: outer := by
        rw [levels, ih hlevels]
      rw [ihcontent hclose, append_nil]
    simp only [List.cons_append, List.append_assoc, levels, hinner, append]

theorem ofTokens_of_nests {ts : List Token} {f : Forest} (h : Nests ts f) : ofTokens ts = f := by
  have hlevels : levels (ts ++ []) = f.append nil :: [] := levels_append h rfl
  rw [List.append_nil, append_nil] at hlevels
  rw [ofTokens, hlevels]
  rfl

end Forest

/-! ### Closed rows -/

/-- A row that closes open elements: a nested row, an end tag, and so on outwards. -/
inductive Unwinds : List (List Char) → List Token → Prop
  | closed {ts : List Token} {f : Forest} : Nests ts f → Unwinds [] ts
  | close {name : List Char} {names : List (List Char)} {tag : EndTag} {ts us : List Token}
      {f : Forest} : Nests ts f → Unwinds names us → Unwinds (name :: names) (ts ++ .close tag :: us)

/-- A nested row in front does not change which elements are closed. -/
theorem Unwinds.prepend {names : List (List Char)} {ts us : List Token} {f : Forest}
    (hts : Nests ts f) (hus : Unwinds names us) : Unwinds names (ts ++ us) := by
  cases hus with
  | closed h => exact .closed (hts.append h)
  | close h hrest =>
    rw [← List.append_assoc]
    exact .close (hts.append h) hrest

theorem Unwinds.cons_leaf {names : List (List Char)} {t : Token} {us : List Token}
    (ht : t.isLeaf = true) (hus : Unwinds names us) : Unwinds names (t :: us) := by
  have hleaf : Nests [t] (.leaf t .nil) := .leaf ht .nil
  exact hus.prepend hleaf

theorem unwinds_of_openNames {names : List (List Char)} {ts : List Token}
    (h : openNames names ts = some []) : Unwinds names ts := by
  induction ts generalizing names with
  | nil =>
    cases h
    exact .closed .nil
  | cons t ts ih =>
    obtain ⟨after, hafter, hrest⟩ := Option.bind_eq_some_iff.mp h
    have hunwinds := ih hrest
    cases t with
    | start tag =>
      cases hafter
      cases hunwinds with
      | @close _ _ close inner us content hcontent houter =>
        have helement : Nests (.start tag :: (inner ++ [.close close])) (.element tag content .nil) :=
          .element hcontent .nil
        simpa using houter.prepend helement
    | close tag =>
      cases names with
      | nil => cases hafter
      | cons name outer =>
        simp only [Token.namesAfter] at hafter
        split at hafter
        · cases hafter
          exact Unwinds.close .nil hunwinds
        · cases hafter
    | empty tag =>
      cases hafter
      have hempty : Nests [.empty tag] (.element tag .nil .nil) := .empty .nil
      exact hunwinds.prepend hempty
    | text | cdata | comment | instruction | doctype =>
      cases hafter
      exact hunwinds.cons_leaf rfl

theorem nests_of_openNames {ts : List Token} (h : openNames [] ts = some []) :
    Nests ts (.ofTokens ts) := by
  cases unwinds_of_openNames h with
  | closed hnests =>
    rw [Forest.ofTokens_of_nests hnests]
    exact hnests

/-- A closed row and what follows it are read as two forests. -/
theorem ofTokens_append {ts us : List Token} (hts : openNames [] ts = some [])
    (hus : openNames [] (ts ++ us) = some []) :
    Forest.ofTokens (ts ++ us) = (Forest.ofTokens ts).append (.ofTokens us) := by
  rw [openNames_append, hts, Option.bind_some] at hus
  exact Forest.ofTokens_of_nests ((nests_of_openNames hts).append (nests_of_openNames hus))

end Markup
end FirmwareTests
