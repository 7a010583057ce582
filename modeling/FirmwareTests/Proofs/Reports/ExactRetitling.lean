import FirmwareTests.Proofs.Markup.Canonical
import FirmwareTests.Proofs.Reports.LastTitle
import FirmwareTests.Proofs.Reports.Writing

/-!
# Exact retitling

A document is retitled by writing all of its tokens again. When the document is spelled
canonically, nothing but the title of its root changes: the value is replaced where it
stands, or the attribute is put at the end of the tag.
-/

namespace FirmwareTests
namespace Reports

open Markup

/-- A document in canonical spelling, without a byte order mark: a root between two texts,
with attributes that are each written as a space, a key, an equals sign and a value in
double quotes. No key has white space, a quote or a closing bracket in it, and no value a
double quote: a key ends at white space, and the tag at a bracket outside of quotes. -/
structure CanonicalDocument where
  front : List Char
  frontTokens : List Token
  canonicalFront : Canonical front frontTokens
  tagless : ∀ t ∈ frontTokens, t.tag? = none
  markless : front.head? ≠ some '\uFEFF'
  attributes : List Attribute
  keys : ∀ a ∈ attributes, IsWord a.key
  legible : ∀ a ∈ attributes, a.Legible
  isEmpty : Bool
  back : List Char
  backTokens : List Token
  canonicalBack : Canonical back backTokens

namespace CanonicalDocument

variable (d : CanonicalDocument)

def textWith (attributes : List Attribute) : List Char :=
  d.front ++ ('<' :: (rootName ++ attributes.flatMap Attribute.render ++
    (if d.isEmpty then ['/', '>'] else ['>'])) ++ d.back)

def text : List Char :=
  d.textWith d.attributes

def root (attributes : List Attribute) : Token :=
  if d.isEmpty then .empty (.ofAttributes rootName attributes)
  else .start (.ofAttributes rootName attributes)

def outline : Outline where
  front := d.frontTokens
  root := d.root d.attributes
  attributes := d.attributes
  back := d.backTokens

def tokens : List Token :=
  d.outline.tokensWith (d.root d.attributes)

@[simp] theorem tag?_root (attributes : List Attribute) :
    (d.root attributes).tag? = some (.ofAttributes rootName attributes) := by
  unfold root
  split <;> rfl

@[simp] theorem withTag_root (attributes attributes' : List Attribute) :
    (d.root attributes).withTag (.ofAttributes rootName attributes') = d.root attributes' := by
  unfold root
  split <;> rfl

theorem render_tokensWith (attributes : List Attribute) :
    render (d.outline.tokensWith (d.root attributes)) = d.textWith attributes := by
  have hroot : (d.root attributes).render = '<' :: (rootName ++
      attributes.flatMap Attribute.render ++ (if d.isEmpty then ['/', '>'] else ['>'])) := by
    unfold root
    split
    · exact Token.render_empty _
    · exact Token.render_start _
  rw [Outline.tokensWith, render_append, render_cons, hroot, textWith]
  exact congrArg₂ _ d.canonicalFront.render_eq (congrArg _ d.canonicalBack.render_eq)

theorem spelled_tokens : Spelled d.tokens := by
  have hlegible : (d.root d.attributes).Legible := by
    rw [← d.withTag_root d.attributes]
    exact legible_ofAttributes (d.tag?_root d.attributes) isElementName_testsuite d.legible
  exact d.canonicalFront.spelled.append_cons hlegible
    (Token.isText_of_tag? (d.tag?_root d.attributes)) d.canonicalBack.spelled

theorem dropByteOrderMark_text : dropByteOrderMark d.text = d.text := by
  have hmark : ∀ c ∈ d.text.head?, c ≠ '\uFEFF' := by
    intro c hc heq
    rw [text, textWith] at hc
    cases hfront : d.front with
    | nil =>
      rw [hfront] at hc
      obtain rfl : '<' = c := by simpa using hc
      cases heq
    | cons first more =>
      have hmarkless := d.markless
      rw [hfront] at hc hmarkless
      obtain rfl : first = c := by simpa using hc
      exact hmarkless (congrArg some heq)
  cases htext : d.text with
  | nil => rfl
  | cons c cs =>
    rw [htext] at hmark
    exact dropByteOrderMark_cons_of_ne (hmark c rfl) cs

theorem map_token_of_read {ts : List Located} (h : read d.text = ⟨ts, .complete⟩) :
    ts.map Located.token = d.tokens := by
  obtain ⟨hscans, -⟩ := read_eq_complete_iff.mp h
  obtain ⟨located, hlocated, hmap⟩ := scans_render d.spelled_tokens 0
  rw [tokens, render_tokensWith, ← text] at hlocated
  rw [dropByteOrderMark_text, ← scan_eq_complete_iff] at hscans
  rw [← scan_eq_complete_iff, hscans] at hlocated
  cases hlocated
  exact hmap

theorem eq_outline_of_splits {o : Outline} {tag : Tag} (h : o.Splits tag d.tokens) :
    o = d.outline ∧ d.outline.Splits tag d.tokens := by
  have hroot := d.tag?_root d.attributes
  have hfront : d.frontTokens.findSome? Token.tag? = none :=
    List.findSome?_eq_none_iff.mpr d.tagless
  -- Both outlines have the first token with a tag for their root.
  obtain rfl : tag = .ofAttributes rootName d.attributes := by
    have htag := h.findSome?_tag
    rw [tokens, Outline.tokensWith, outline, List.findSome?_append, hfront, Option.none_or,
      List.findSome?_cons, hroot] at htag
    exact (Option.some.inj htag).symm
  -- What was read of the tag are the attributes it was written with, as it was read at all.
  have hattributes : o.attributes = d.attributes := by
    have htext : (Tag.ofAttributes rootName d.attributes).attributeText = _ :=
      Tag.attributeText_ofAttributes isElementName_testsuite.isSpace
    have hrow := h.row
    rw [htext] at hrow
    exact hrow.eq_of_render d.keys fun a ha => (d.legible a ha).plain
  have hread := h.attributes
  rw [hattributes] at hread
  have hsplits : d.outline.Splits (.ofAttributes rootName d.attributes) d.tokens :=
    ⟨rfl, d.tagless, hroot, h.name, hread⟩
  have ho := h.ofTokens?
  rw [hsplits.ofTokens?] at ho
  exact ⟨(Option.some.inj ho).symm, hsplits⟩

/-- When the document can be retitled, the attributes of its root are replaced. -/
theorem eq_of_retitle_eq_ok {title out : List Char} (h : retitle title d.text = .ok out) :
    (d.attributes.map Attribute.key).Nodup ∧
      out = d.textWith (retitledAttributes title d.attributes) := by
  have houtline := toOption_retitle title d.text
  rw [h] at houtline
  obtain ⟨o, ho, rfl⟩ := Option.map_eq_some_iff.mp houtline.symm
  obtain ⟨ts, tag, hread, -, hsplits⟩ := Outline.ofDocument?_eq_some_iff.mp ho
  rw [d.map_token_of_read hread] at hsplits
  obtain ⟨rfl, hsplits⟩ := d.eq_outline_of_splits hsplits
  refine ⟨hsplits.nodup, ?_⟩
  rw [← render_tokensWith, Outline.retitled, Outline.titledTag, outline, withTag_root]

end CanonicalDocument

/-- Retitling a document in canonical spelling changes nothing but the title of its root:
the value of the title is replaced where it stands, and a title that is missing is put
after the last attribute. -/
theorem retitle_canonical {d : CanonicalDocument} {title out : List Char}
    (h : retitle title d.text = .ok out) :
    (∀ before value after, d.attributes = before ++ ⟨titleKey, value⟩ :: after →
        out = d.textWith (before ++ ⟨titleKey, escape title⟩ :: after)) ∧
      ((∀ a ∈ d.attributes, a.key ≠ titleKey) →
        out = d.textWith (d.attributes ++ [⟨titleKey, escape title⟩])) := by
  obtain ⟨hnodup, rfl⟩ := d.eq_of_retitle_eq_ok h
  rw [retitledAttributes_eq hnodup]
  constructor
  · intro before value after hattributes
    rw [hattributes] at hnodup ⊢
    have hbefore : ∀ a ∈ before, a.key ≠ titleKey := forall_ne_before hnodup
    rw [beforeTitle_append hbefore, afterTitle_append hbefore]
    rfl
  · intro hnone
    rw [beforeTitle_of_forall_ne hnone, afterTitle_of_forall_ne hnone]
    rfl

theorem canonical_sampleFront : Canonical "<?xml?><!DOCTYPE a>\n<!-- <b> -->".toList
    [.instruction "xml".toList, .doctype "a".toList, .text "\n".toList,
      .comment " <b> ".toList] := by
  have hinstruction : Spells (.instruction "xml".toList) _ :=
    .instruction (by decide) (by decide)
  have hdoctype : Spells (.doctype "a".toList) ('!' :: 'D' :: ("OCTYPE a".toList ++ ['>'])) :=
    .bang rfl (by decide) rfl
  have hcomment : Spells (.comment " <b> ".toList) ('!' :: '-' :: ("- <b> --".toList ++ ['>'])) :=
    .bang rfl (by decide) rfl
  have hlast := Canonical.markup hcomment trivial .nil
  have htext : Canonical ("\n".toList ++ _) (.text "\n".toList :: _) :=
    .text (by decide) (by decide) (by decide) hlast
  exact .markup hinstruction trivial (.markup hdoctype ⟨'a', _, rfl, rfl⟩ htext)

theorem canonical_sampleBack : Canonical "<![CDATA[]] >]]>é</testsuite>".toList
    [.cdata "]] >".toList, .text "é".toList, .close ⟨"testsuite".toList⟩] := by
  have hcdata : Spells (.cdata "]] >".toList) ('!' :: '[' :: ("CDATA[]] >]]".toList ++ ['>'])) :=
    .bang rfl (by decide) rfl
  have hclose : Spells (.close ⟨"testsuite".toList⟩) _ := .close (by decide)
  have hlast := Canonical.markup hclose isElementName_testsuite.isSpace .nil
  have htext : Canonical ("é".toList ++ _) (.text "é".toList :: _) :=
    .text (by decide) (by decide) (by decide) hlast
  exact .markup hcdata ⟨"]] >]]>".toList, rfl⟩ htext

/-- A document with brackets in a value, a comment and a CDATA section. -/
def canonicalSample (attributes : List Attribute) (keys : ∀ a ∈ attributes, IsWord a.key)
    (legible : ∀ a ∈ attributes, a.Legible) : CanonicalDocument where
  front := _
  frontTokens := _
  canonicalFront := canonical_sampleFront
  tagless := by decide
  markless := by decide
  attributes := attributes
  keys := keys
  legible := legible
  isEmpty := false
  back := _
  backTokens := _
  canonicalBack := canonical_sampleBack

def titledSample : CanonicalDocument :=
  canonicalSample [⟨"a".toList, "<>".toList⟩, ⟨"name".toList, "B".toList⟩] (by decide) (by decide)

def untitledSample : CanonicalDocument :=
  canonicalSample [⟨"a".toList, "<>".toList⟩] (by decide) (by decide)

def retitledSamples : List Char :=
  ("<?xml?><!DOCTYPE a>\n<!-- <b> --><testsuite a=\"<>\" name=\"C&amp;\">" ++
    "<![CDATA[]] >]]>é</testsuite>").toList

theorem retitle_canonical_samples :
    retitle "C&".toList titledSample.text = .ok retitledSamples ∧
      retitle "C&".toList untitledSample.text = .ok retitledSamples := by
  have htitled : (retitle "C&".toList titledSample.text).toOption.isSome := by decide +kernel
  have huntitled : (retitle "C&".toList untitledSample.text).toOption.isSome := by decide +kernel
  obtain ⟨out, hout⟩ := Option.isSome_iff_exists.mp htitled
  obtain ⟨out', hout'⟩ := Option.isSome_iff_exists.mp huntitled
  rw [toOption_eq_some_iff] at hout hout'
  have hold := (retitle_canonical hout).1 [⟨"a".toList, "<>".toList⟩] "B".toList [] rfl
  have hnew := (retitle_canonical hout').2 (by decide)
  rw [hout, hout', hold, hnew, Except.ok.injEq, Except.ok.injEq]
  decide +kernel

end Reports
end FirmwareTests
