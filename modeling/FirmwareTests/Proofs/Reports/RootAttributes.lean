import FirmwareTests.Proofs.Reports.SuiteName

/-!
# The attributes of a retitled root

The root of a retitled document is written attribute by attribute. When it is read again it
is a `testsuite` as before, closed in the same way, and its attributes are those that there
were: the value of the title is another one, in its place, or there is a title behind them.
-/

namespace FirmwareTests

namespace Markup

/-- The tag that begins an element, and whether it closes the element at once. -/
def Token.opens? (t : Token) : Option (Bool × Tag) :=
  match t with
  | start tag => some (false, tag)
  | empty tag => some (true, tag)
  | _ => none

/-- The tag of the first element of a document, and whether it closes the element at once. -/
def firstElement? (document : List Char) : Option (Bool × Tag) :=
  (read document).tokens.findSome? fun t => t.token.opens?

theorem Token.opens?_of_tagless {t : Token} (h : t.tag? = none) : t.opens? = none := by
  cases t with
  | start | empty => cases h
  | _ => rfl

theorem Token.exists_opens? {t : Token} {tag : Tag} (h : t.tag? = some tag) :
    ∃ closes, t.opens? = some (closes, tag) ∧
      ∀ new, (t.withTag new).opens? = some (closes, new) := by
  cases t with
  | start | empty =>
    cases h
    exact ⟨_, rfl, fun new => rfl⟩
  | _ => cases h

end Markup

namespace Reports

open Markup

/-- Rows of attributes with a title for the first of them: in the place of the value that
there was, or behind all others. -/
inductive Retitles (title : List Char) : List Attribute → List Attribute → Prop
  | replace {before after : List Attribute} {value : List Char}
      (hbefore : ∀ a ∈ before, a.key ≠ titleKey) (hafter : ∀ a ∈ after, a.key ≠ titleKey) :
      Retitles title (before ++ ⟨titleKey, value⟩ :: after)
        (before ++ ⟨titleKey, escape title⟩ :: after)
  | append {attributes : List Attribute} (hnone : ∀ a ∈ attributes, a.key ≠ titleKey) :
      Retitles title attributes (attributes ++ [⟨titleKey, escape title⟩])

theorem retitles_retitledAttributes {attributes : List Attribute}
    (hnodup : (attributes.map Attribute.key).Nodup) (title : List Char) :
    Retitles title attributes (retitledAttributes title attributes) := by
  rw [retitledAttributes_eq hnodup]
  rcases attributes_cases attributes with hnone | ⟨before, value, after, rfl, hbefore⟩
  · rw [beforeTitle_of_forall_ne hnone, afterTitle_of_forall_ne hnone]
    exact .append hnone
  · rw [beforeTitle_append hbefore, afterTitle_append hbefore]
    exact .replace hbefore (forall_ne_after hnodup)

/-- A document that begins with a `testsuite` of the given attributes, and whether that is
closed at once. -/
def HasRoot (document : List Char) (closes : Bool) (attributes : List Attribute) : Prop :=
  ∃ tag, firstElement? document = some (closes, tag) ∧ tag.name = rootName ∧
    tag.attributes = ⟨attributes, none⟩

/-- The root of an outline is the first element of its document. -/
theorem Outline.Splits.firstElement? {document : List Char} {ts : List Located} {o : Outline}
    {tag : Tag} (h : o.Splits tag (ts.map Located.token))
    (hread : read document = ⟨ts, .complete⟩) {closes : Bool}
    (hroot : o.root.opens? = some (closes, tag)) :
    Markup.firstElement? document = some (closes, tag) := by
  have hfront : o.front.findSome? Token.opens? = none :=
    List.findSome?_eq_none_iff.mpr fun t ht => Token.opens?_of_tagless (h.tagless t ht)
  have htokens : (ts.map Located.token).findSome? Token.opens? = some (closes, tag) := by
    rw [← h.tokens, Outline.tokensWith, List.findSome?_append, hfront, Option.none_or,
      List.findSome?_cons, hroot]
  rw [List.findSome?_map] at htokens
  rw [Markup.firstElement?, hread]
  exact htokens

/-- When a retitled document is read again, its root has the attributes of the original in
their order, but for the title, and is closed in the same way. -/
theorem retitle_keeps_attributes {title document out : List Char}
    (hout : retitle title document = .ok out) (hplain : PlainRoot document) :
    ∃ closes attributes attributes', HasRoot document closes attributes ∧
      HasRoot out closes attributes' ∧ Retitles title attributes attributes' ∧
        (attributes'.map Attribute.key).Nodup := by
  rw [← toOption_eq_some_iff, toOption_retitle] at hout
  obtain ⟨o, ho, rfl⟩ := Option.map_eq_some_iff.mp hout
  have hplain := hplain.outline ho
  obtain ⟨ts, tag, hread, -, hsplits⟩ := Outline.ofDocument?_eq_some_iff.mp ho
  obtain ⟨us, hreread, -, hresplits⟩ := Outline.exists_reread ho hplain title
  obtain ⟨closes, hroot, hreroot⟩ := Token.exists_opens? hsplits.rootTag
  have hbefore : HasRoot document closes o.attributes :=
    ⟨tag, hsplits.firstElement? hread hroot, hsplits.name, hsplits.attributes⟩
  have hafter : HasRoot (render (o.retitled title)) closes
      (retitledAttributes title o.attributes) :=
    ⟨_, hresplits.firstElement? hreread (hreroot _), hresplits.name, hresplits.attributes⟩
  exact ⟨closes, o.attributes, _, hbefore, hafter, retitles_retitledAttributes hsplits.nodup title,
    nodup_retitledAttributes hsplits.nodup title⟩

/-- A root that is closed at once, with brackets and quotes in its values. -/
def attributesSample : List Char :=
  "<testsuite\ta='>/'  name = 'old'\n b=\"it's &lt;\" />".toList

/-- A title with quotes between two other attributes. -/
theorem retitle_keeps_attributes_sample : ∃ out,
    retitle "a \"b\" & c".toList attributesSample = .ok out ∧ PlainRoot attributesSample ∧
      ∃ closes attributes attributes', HasRoot attributesSample closes attributes ∧
        HasRoot out closes attributes' ∧
          Retitles "a \"b\" & c".toList attributes attributes' ∧
            (attributes'.map Attribute.key).Nodup := by
  have hout : (retitle "a \"b\" & c".toList attributesSample).toOption.isSome := by
    decide +kernel
  have hplain : PlainRoot attributesSample := by decide +kernel
  obtain ⟨out, hout⟩ := Option.isSome_iff_exists.mp hout
  rw [toOption_eq_some_iff] at hout
  exact ⟨out, hout, hplain, retitle_keeps_attributes hout hplain⟩

end Reports
end FirmwareTests
