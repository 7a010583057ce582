import FirmwareTests.Proofs.Markup.Elements
import FirmwareTests.Proofs.Reports.Outline

/-!
# Retitled documents

A root whose values hold no double quote and whose keys hold no quotes is written in a
way that can be read again. The retitled document then has the outline it was written
from, and gives the report of the original with another name.
-/

namespace FirmwareTests
namespace Reports

open Markup

theorem isElementName_testsuite : IsElementName "testsuite".toList :=
  ⟨by decide, List.all_eq_true.mp (by decide)⟩

namespace Outline

def reread (o : Outline) (title : List Char) : Outline where
  front := dropMark (o.front.map Token.usual)
  root := o.root.withTag (o.titledTag title)
  attributes := retitledAttributes title o.attributes
  back := o.back.map Token.usual

/-- An outline whose attributes keep their quotes apart in the usual spelling. -/
def Plain (o : Outline) : Prop :=
  ∀ a ∈ o.attributes, a.Plain

namespace Splits

variable {o : Outline} {tag : Tag} {ts : List Token}

theorem row (h : o.Splits tag ts) : Row [] tag.attributeText o.attributes := by
  have hread := h.attributes
  rw [Tag.attributes, AttributeList.readFrom_eq_iff] at hread
  exact hread

theorem nodup (h : o.Splits tag ts) : (o.attributes.map Attribute.key).Nodup := by
  simpa using h.row.nodup List.nodup_nil

theorem notMem_key (h : o.Splits tag ts) (hplain : o.Plain)
    (hwithin : isWithinTag none tag.text = true) : ∀ a ∈ o.attributes, '>' ∉ a.key := by
  rw [← tag.name_append_attributeText, isWithinTag_append, h.name] at hwithin
  exact h.row.notMem_key hwithin.2 fun a ha => (hplain a ha).1

theorem name_titledTag (o : Outline) (title : List Char) : (o.titledTag title).name = rootName :=
  Tag.name_ofAttributes isElementName_testsuite.isSpace

/-- Any property of attributes that a title has carries over to a retitled row. -/
theorem forall_retitled (h : o.Splits tag ts) (title : List Char) {P : Attribute → Prop}
    (hnew : P (titleAttribute title)) (hold : ∀ a ∈ o.attributes, P a) :
    ∀ a ∈ retitledAttributes title o.attributes, P a :=
  forall_mem_retitledAttributes h.nodup title hnew hold

theorem attributes_titledTag (h : o.Splits tag ts) (hplain : o.Plain) (title : List Char) :
    (o.titledTag title).attributes = ⟨retitledAttributes title o.attributes, none⟩ := by
  apply Tag.attributes_ofAttributes isElementName_testsuite.isSpace
  · exact h.forall_retitled title (P := fun a => IsKey a.key) isKey_titleKey h.row.isKey
  · exact h.forall_retitled title (P := fun a => '"' ∉ a.value) (quote_notMem_escape title)
      fun a ha => (hplain a ha).2
  · exact nodup_retitledAttributes h.nodup title

theorem legible_titledRoot (h : o.Splits tag ts) (hplain : o.Plain) (hlegible : o.root.Legible)
    (title : List Char) : (o.root.withTag (o.titledTag title)).Legible := by
  have hkeys := h.notMem_key hplain (hlegible.isWithinTag h.rootTag)
  apply legible_ofAttributes h.rootTag isElementName_testsuite
  exact h.forall_retitled title (legible_titleAttribute title)
    fun a ha => ⟨hplain a ha, hkeys a ha⟩

/-- The usual spelling changes only what stands before and after the root. -/
theorem map_usual (h : o.Splits tag ts) :
    ts.map Token.usual = o.front.map Token.usual ++ o.root :: o.back.map Token.usual := by
  rw [← h.tokens, tokensWith, List.map_append, List.map_cons, Token.usual_of_tag? h.rootTag]

theorem map_usual_retitled (h : o.Splits tag ts) (title : List Char) :
    (o.retitled title).map Token.usual = o.front.map Token.usual ++
      o.root.withTag (o.titledTag title) :: o.back.map Token.usual := by
  rw [retitled, tokensWith, List.map_append, List.map_cons,
    Token.usual_of_tag? (Token.tag?_withTag h.rootTag _)]

theorem spelled_retitled (h : o.Splits tag ts) (hplain : o.Plain)
    (hspelled : Spelled (ts.map Token.usual)) (title : List Char) :
    Spelled ((o.retitled title).map Token.usual) := by
  have hnew := Token.tag?_withTag h.rootTag (o.titledTag title)
  rw [h.map_usual] at hspelled
  rw [h.map_usual_retitled]
  exact hspelled.replace (h.legible_titledRoot hplain hspelled.legible title)
    (Token.isText_of_tag? hnew)

theorem openNames_retitled (h : o.Splits tag ts) (title : List Char)
    (names : List (List Char)) : openNames names (o.retitled title) = openNames names ts := by
  have hname : (o.titledTag title).name = tag.name := by
    rw [name_titledTag, h.name]
  rw [← h.tokens]
  simp only [retitled, tokensWith, openNames_append, openNames_cons,
    Token.namesAfter_withTag h.rootTag hname]

/-- The front of a document has no tag when it is read again either. -/
theorem tagless_reread (h : o.Splits tag ts) (title : List Char) :
    ∀ t ∈ (o.reread title).front, t.tag? = none := by
  intro t ht
  by_cases htext : t.isText = true
  · cases htag : t.tag? with
    | none => rfl
    | some tag' =>
      rw [Token.isText_of_tag? htag] at htext
      cases htext
  · rw [Bool.not_eq_true] at htext
    obtain ⟨u, hu, rfl⟩ := List.mem_map.mp (mem_of_mem_dropMark ht htext)
    rw [Token.tag?_usual]
    exact h.tagless u hu

end Splits

/-- A retitled document is read again with the outline it was written from. -/
theorem ofDocument?_render_retitled {document : List Char} {o : Outline}
    (ho : ofDocument? document = some o) (hplain : o.Plain) (title : List Char) :
    ofDocument? (render (o.retitled title)) = some (o.reread title) := by
  obtain ⟨ts, tag, hread, hclosed, hsplits⟩ := ofDocument?_eq_some_iff.mp ho
  obtain ⟨hscans, hnames⟩ := read_eq_complete_iff.mp hread
  have hnew := Token.tag?_withTag hsplits.rootTag (o.titledTag title)
  have hspelled := hsplits.spelled_retitled hplain (spelled_of_scans hscans) title
  have hnames' : (openNames [] ((o.retitled title).map Token.usual)).isSome := by
    rwa [openNames_map_usual, hsplits.openNames_retitled]
  obtain ⟨located, hread', hlocated⟩ := exists_read_render hspelled hnames'
  rw [render_map_usual] at hread'
  have htokens : (o.reread title).tokensWith (o.reread title).root = located.map Located.token := by
    rw [hlocated, hsplits.map_usual_retitled, dropMark_append (Token.isText_of_tag? hnew)]
    rfl
  refine ofDocument?_eq_some_iff.mpr ⟨located, o.titledTag title, hread', ?_, htokens,
    hsplits.tagless_reread title, hnew, Splits.name_titledTag o title,
    hsplits.attributes_titledTag hplain title⟩
  obtain ⟨names, hnames⟩ := Option.isSome_iff_exists.mp hnames
  have hopen : openNames [] (located.map Located.token) = some names := by
    rw [hlocated, openNames_dropMark, openNames_map_usual, hsplits.openNames_retitled, hnames]
  rw [openElements_eq_zero_iff hopen, ← openElements_eq_zero_iff hnames]
  exact hclosed

/-- A retitled document splits at its root, whose tag is the titled one. -/
theorem exists_reread {document : List Char} {o : Outline} (ho : ofDocument? document = some o)
    (hplain : o.Plain) (title : List Char) : ∃ us,
    read (render (o.retitled title)) = ⟨us, .complete⟩ ∧
      openElements (us.map Located.token) = 0 ∧
        (o.reread title).Splits (o.titledTag title) (us.map Located.token) := by
  obtain ⟨ts, tag, -, -, hsplits⟩ := ofDocument?_eq_some_iff.mp ho
  obtain ⟨us, tag', hread, hclosed, hresplits⟩ :=
    ofDocument?_eq_some_iff.mp (ofDocument?_render_retitled ho hplain title)
  have htag := hresplits.rootTag
  rw [reread, Token.tag?_withTag hsplits.rootTag] at htag
  cases htag
  exact ⟨us, hread, hclosed, hresplits⟩

end Outline
end Reports
end FirmwareTests
