import FirmwareTests.Proofs.Reports.SuiteName

/-!
# The last title

Retitling puts the title between two texts. The last of several titles wins exactly when
these texts are found again in what was written. A root without double quotes in its
values keeps them, but for the second of two byte order marks. A value that was read
between single quotes is written between double ones as it stands, so a double quote in
it can move the title or end the tag.
-/

namespace FirmwareTests
namespace Reports

open Markup

def closing : Token → List Char
  | .empty _ => ['/', '>']
  | _ => ['>']

theorem closing_withTag (new : Tag) (t : Token) : closing (t.withTag new) = closing t := by
  cases t <;> rfl

theorem render_withTag {t : Token} {tag : Tag} (h : t.tag? = some tag) (new : Tag) :
    (t.withTag new).render = '<' :: (new.text ++ closing t) := by
  cases t with
  | start tag' => exact Token.render_start new
  | empty tag' => exact Token.render_empty new
  | _ => cases h

/-- The text before and after a title. -/
structure Frame where
  before : List Char
  after : List Char
  deriving DecidableEq

def Frame.fill (f : Frame) (title : List Char) : List Char :=
  f.before ++ (escape title ++ f.after)

def Outline.frame (o : Outline) : Frame where
  before := render o.front ++ ('<' :: (rootName ++
    ((beforeTitle o.attributes).flatMap Attribute.render ++ (' ' :: (titleKey ++ ['=', '"'])))))
  after := '"' :: ((afterTitle o.attributes).flatMap Attribute.render ++
    (closing o.root ++ render o.back))

/-- The frame of the title in a document that can be retitled. -/
def titleFrame? (document : List Char) : Option Frame :=
  (Outline.ofDocument? document).map Outline.frame

theorem Outline.Splits.render_retitled {o : Outline} {tag : Tag} {ts : List Token}
    (h : o.Splits tag ts) (title : List Char) :
    render (o.retitled title) = o.frame.fill title := by
  simp only [Outline.retitled, Outline.tokensWith, Outline.titledTag, render_append, render_cons,
    render_withTag h.rootTag, Tag.ofAttributes, retitledAttributes_eq h.nodup,
    List.flatMap_append, List.flatMap_cons, Attribute.render_eq, titleAttribute]
  simp [Outline.frame, Frame.fill]

theorem toOption_retitle_eq_fill (title document : List Char) :
    (retitle title document).toOption = (titleFrame? document).map fun f => f.fill title := by
  rw [toOption_retitle, titleFrame?, Option.map_map]
  cases ho : Outline.ofDocument? document with
  | none => rfl
  | some o =>
    obtain ⟨ts, tag, -, -, hsplits⟩ := Outline.ofDocument?_eq_some_iff.mp ho
    simp [hsplits.render_retitled]

/-! ### Frames are told apart by titles -/

theorem eq_nil_of_forall_comm {x : List Char} (h : ∀ title, escape title ++ x = x ++ escape title) :
    x = [] := by
  cases x with
  | nil => rfl
  | cons c x =>
    have ha : 'a' = c := (List.cons.inj (h ['a'])).1
    have hb : 'b' = c := (List.cons.inj (h ['b'])).1
    rw [← hb] at ha
    cases ha

theorem fill_injective {f g : Frame} (h : ∀ title, f.fill title = g.fill title) : f = g := by
  -- the shorter front is lengthened by a text that every title commutes with
  have hextend : ∀ {f g : Frame} {x : List Char}, (∀ title, f.fill title = g.fill title) →
      g.before = f.before ++ x → f.after = x ++ g.after → f = g := by
    intro f g x hfill hbefore hafter
    have hx : x = [] := by
      apply eq_nil_of_forall_comm
      intro title
      have heq := hfill title
      rw [Frame.fill, Frame.fill, hbefore, hafter, List.append_assoc,
        List.append_cancel_left_eq, ← List.append_assoc, ← List.append_assoc,
        List.append_cancel_right_eq] at heq
      exact heq
    subst hx
    obtain ⟨before, after⟩ := f
    obtain ⟨before', after'⟩ := g
    simp_all
  have hempty := h []
  simp only [Frame.fill, escape_nil, List.nil_append] at hempty
  rcases List.append_eq_append_iff.mp hempty with ⟨x, hbefore, hafter⟩ | ⟨x, hbefore, hafter⟩
  · exact hextend h hbefore hafter
  · exact (hextend (fun title => (h title).symm) hbefore hafter).symm

/-! ### Frames that are found again -/

/-- A document that begins with two byte order marks, of which reading drops one. -/
def BeginsWithTwoMarks (document : List Char) : Prop :=
  (dropByteOrderMark document).head? = some '\uFEFF'

instance (document : List Char) : Decidable (BeginsWithTwoMarks document) :=
  inferInstanceAs (Decidable (_ = _))

theorem frame_reread {o : Outline} {tag : Tag} {ts : List Token} (h : o.Splits tag ts)
    (hmark : dropMark (o.front.map Token.usual) = o.front.map Token.usual) (title : List Char) :
    (o.reread title).frame = o.frame := by
  unfold Outline.frame Outline.reread
  rw [hmark, render_map_usual, render_map_usual, beforeTitle_retitledAttributes h.nodup,
    afterTitle_retitledAttributes h.nodup, closing_withTag]

theorem dropMark_front {document : List Char} (hmarks : ¬ BeginsWithTwoMarks document)
    {ts : List Located} (hread : read document = ⟨ts, .complete⟩) {o : Outline} {tag : Tag}
    (h : o.Splits tag (ts.map Located.token)) :
    dropMark (o.front.map Token.usual) = o.front.map Token.usual := by
  have hdrop := dropMark_of_scans (read_eq_complete_iff.mp hread).1 hmarks
  rw [h.map_usual, dropMark_append (Token.isText_of_tag? h.rootTag)] at hdrop
  exact List.append_cancel_right hdrop

/-- The second of two marks is lost when the document is read again. -/
theorem frame_reread_ne {document : List Char} (hmarks : BeginsWithTwoMarks document)
    {ts : List Located} (hread : read document = ⟨ts, .complete⟩) {o : Outline} {tag : Tag}
    (h : o.Splits tag (ts.map Located.token)) (title : List Char) :
    (o.reread title).frame ≠ o.frame := by
  obtain ⟨more, us, hus⟩ := exists_mark_of_scans (read_eq_complete_iff.mp hread).1 hmarks
  rw [h.map_usual] at hus
  obtain ⟨front, hfront⟩ : ∃ front, o.front.map Token.usual = .text ('\uFEFF' :: more) :: front := by
    cases hfront : o.front.map Token.usual with
    | nil =>
      rw [hfront] at hus
      have hroot := Token.isText_of_tag? h.rootTag
      rw [(List.cons.inj hus).1] at hroot
      cases hroot
    | cons t front =>
      rw [hfront] at hus
      exact ⟨front, by rw [(List.cons.inj hus).1]⟩
  intro heq
  have hbefore := congrArg Frame.before heq
  simp only [Outline.frame, Outline.reread, beforeTitle_retitledAttributes h.nodup,
    List.append_cancel_right_eq] at hbefore
  rw [← render_map_usual o.front, hfront, render_dropMark_mark] at hbefore
  have hlength := congrArg List.length hbefore
  rw [List.length_cons] at hlength
  omega

/-- A plain root is written within the frame it was read from, unless a mark is lost. -/
theorem titleFrame?_retitle_iff {title document out : List Char}
    (hout : retitle title document = .ok out) (hplain : PlainRoot document) :
    titleFrame? out = titleFrame? document ↔ ¬ BeginsWithTwoMarks document := by
  rw [← toOption_eq_some_iff, toOption_retitle] at hout
  obtain ⟨o, ho, rfl⟩ := Option.map_eq_some_iff.mp hout
  obtain ⟨ts, tag, hread, -, hsplits⟩ := Outline.ofDocument?_eq_some_iff.mp ho
  rw [titleFrame?, titleFrame?, ho,
    Outline.ofDocument?_render_retitled ho (hplain.outline ho) title, Option.map_some,
    Option.map_some, Option.some.injEq]
  constructor
  · intro hframe hmarks
    exact frame_reread_ne hmarks hread hsplits title hframe
  · intro hmarks
    exact frame_reread hsplits (dropMark_front hmarks hread hsplits) title

/-- The last title wins exactly when the written document is read within the frame it was
written in. For a plain root that is when no more than one byte order mark stands before
it. -/
theorem retitle_retitle_iff {first document out : List Char}
    (hout : retitle first document = .ok out) :
    ((∀ last, ∃ written, retitle last out = .ok written ∧ retitle last document = .ok written) ↔
        titleFrame? out = titleFrame? document) ∧
      (PlainRoot document →
        (titleFrame? out = titleFrame? document ↔ ¬ BeginsWithTwoMarks document)) := by
  refine ⟨?_, titleFrame?_retitle_iff hout⟩
  rw [← toOption_eq_some_iff, toOption_retitle_eq_fill] at hout
  obtain ⟨frame, hframe, -⟩ := Option.map_eq_some_iff.mp hout
  simp only [← toOption_eq_some_iff, toOption_retitle_eq_fill, hframe, Option.map_some]
  constructor
  · intro h
    obtain ⟨written, hwritten, -⟩ := h []
    obtain ⟨frame', hframe', -⟩ := Option.map_eq_some_iff.mp hwritten
    rw [hframe', Option.some.injEq]
    apply fill_injective
    intro title
    obtain ⟨written, hwritten, hfill⟩ := h title
    rw [hframe', Option.map_some, Option.some.injEq] at hwritten
    rw [hwritten, ← Option.some.inj hfill]
  · intro h last
    rw [h, Option.map_some]
    exact ⟨_, rfl, rfl⟩

theorem retitle_retitle_plain : ∃ out,
    retitle "A".toList "<testsuite id=\"7\"/>".toList = .ok out ∧
      PlainRoot "<testsuite id=\"7\"/>".toList ∧
        ¬ BeginsWithTwoMarks "<testsuite id=\"7\"/>".toList ∧
          ∀ last, ∃ written, retitle last out = .ok written ∧
            retitle last "<testsuite id=\"7\"/>".toList = .ok written := by
  have hout : (retitle "A".toList "<testsuite id=\"7\"/>".toList).toOption.isSome := by
    decide +kernel
  have hplain : PlainRoot "<testsuite id=\"7\"/>".toList := by decide +kernel
  have hmarks : ¬ BeginsWithTwoMarks "<testsuite id=\"7\"/>".toList := by decide +kernel
  obtain ⟨out, hout⟩ := Option.isSome_iff_exists.mp hout
  rw [toOption_eq_some_iff] at hout
  obtain ⟨hiff, hframe⟩ := retitle_retitle_iff hout
  exact ⟨out, hout, hplain, hmarks, hiff.mpr ((hframe hplain).mpr hmarks)⟩

/-- A double quote between single quotes: the document cannot be retitled again. -/
theorem retitle_retitle_fails : ∃ out,
    retitle "A".toList "<testsuite x='a\"b'/>".toList = .ok out ∧
      (∃ written, retitle "B".toList "<testsuite x='a\"b'/>".toList = .ok written) ∧
      ¬ ∃ written, retitle "B".toList out = .ok written := by
  have hout : (retitle "A".toList "<testsuite x='a\"b'/>".toList).toOption =
      some "<testsuite x=\"a\"b\" name=\"A\"/>".toList := by
    decide +kernel
  have hlast : (retitle "B".toList "<testsuite x='a\"b'/>".toList).toOption.isSome := by
    decide +kernel
  have hnone : (retitle "B".toList
      "<testsuite x=\"a\"b\" name=\"A\"/>".toList).toOption = none := by
    decide +kernel
  obtain ⟨written, hlast⟩ := Option.isSome_iff_exists.mp hlast
  rw [toOption_eq_some_iff] at hout hlast
  refine ⟨_, hout, ⟨written, hlast⟩, ?_⟩
  rintro ⟨other, hother⟩
  rw [← toOption_eq_some_iff, hnone] at hother
  cases hother

end Reports
end FirmwareTests
