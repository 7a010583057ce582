import FirmwareTests.Proofs.Reports.Retitling

/-!
# The name of a retitled report

A builder that has taken in the root treats the name of the suite as mere freight: with
another name it takes the same steps. A retitled document therefore gives the report of
the original, with the title as its name.
-/

namespace FirmwareTests
namespace Reports

open Markup

def Report.titled (title : List Char) (r : Report) : Report :=
  { r with suiteName := some (String.ofList title) }

namespace Builder

def titled (title : List Char) (b : Builder) : Builder :=
  { b with report := b.report.map (Report.titled title) }

theorem titled_mk (title : List Char) (depth : Nat) (report : Report)
    (pending? : Option Pending) (inFailure : Bool) :
    titled title ⟨depth, some report, pending?, inFailure⟩ =
      ⟨depth, some (report.titled title), pending?, inFailure⟩ := rfl

theorem toOption_openElement_titled (title : List Char) (depth : Nat) (report : Report)
    (pending? : Option Pending) (inFailure : Bool) (tag : Tag) (isEmpty : Bool) (p : Nat) :
    (openElement ⟨depth, some (report.titled title), pending?, inFailure⟩ tag isEmpty p).toOption =
      (openElement ⟨depth, some report, pending?, inFailure⟩ tag isEmpty p).toOption.map
        (titled title) := by
  match depth, pending? with
  | 0, _ | 1, _ | 3, none | _ + 4, _ => rfl
  | 2, _ =>
    by_cases hname : tag.name = "testcase".toList
    · rw [toOption_openElement_testCase hname, toOption_openElement_testCase hname,
        Option.map_map]
      rfl
    · rw [openElement_other hname, openElement_other hname]
      rfl
  | 3, some pending =>
    by_cases hname : tag.name = "failure".toList
    · rw [openElement_failure hname, openElement_failure hname]
      rfl
    · rw [openElement_notFailure hname, openElement_notFailure hname]
      rfl

theorem closeElement_titled (b : Builder) (title : List Char) :
    (b.titled title).closeElement = b.closeElement.titled title := by
  obtain ⟨depth, report?, pending?, inFailure⟩ := b
  match depth, report?, pending? with
  | 0, _, _ | 1, _, _ | 2, none, _ | 2, some _, none | 3, _, _ | _ + 4, _, _ => rfl
  | 2, some _, some _ => rfl

theorem openFailure?_titled (b : Builder) (title : List Char) :
    (b.titled title).openFailure? = b.openFailure? := rfl

theorem next?_titled {b : Builder} (h : b.report.isSome) (title : List Char) (t : Token) :
    (b.titled title).next? t = (b.next? t).map (titled title) := by
  unfold next? step
  cases t with
  | start tag =>
    obtain ⟨depth, report?, pending?, inFailure⟩ := b
    obtain ⟨report, rfl⟩ := Option.isSome_iff_exists.mp h
    exact toOption_openElement_titled title _ report pending? inFailure tag false 0
  | empty tag =>
    obtain ⟨depth, report?, pending?, inFailure⟩ := b
    obtain ⟨report, rfl⟩ := Option.isSome_iff_exists.mp h
    have hopen := toOption_openElement_titled title (depth + 1) report pending? inFailure tag true 0
    simp only [titled_mk, toOption_bind, hopen]
    cases (openElement ⟨depth + 1, some report, pending?, inFailure⟩ tag true 0).toOption with
    | none => rfl
    | some opened =>
      simp only [Option.map_some, Option.bind_some, closeElement_titled]
      rfl
  | close tag =>
    simp only [closeElement_titled]
    rfl
  | text raw =>
    simp only [openFailure?_titled]
    cases b.openFailure? with
    | none => rfl
    | some open? =>
      dsimp only
      cases unescape raw <;> rfl
  | cdata raw =>
    simp only [openFailure?_titled]
    cases b.openFailure? <;> rfl
  | comment raw | instruction raw | doctype raw => rfl

theorem isSome_report_openElement {b b' : Builder} {tag : Tag} {isEmpty : Bool} {p : Nat}
    (h : b.report.isSome) (hopen : (b.openElement tag isEmpty p).toOption = some b') :
    b'.report.isSome := by
  obtain ⟨depth, report?, pending?, inFailure⟩ := b
  obtain ⟨report, rfl⟩ := Option.isSome_iff_exists.mp h
  match depth, pending? with
  | 0, _ | 1, _ | 3, none | _ + 4, _ =>
    cases hopen
    rfl
  | 2, _ =>
    by_cases hname : tag.name = "testcase".toList
    · rw [toOption_openElement_testCase hname] at hopen
      obtain ⟨name, -, rfl⟩ := Option.map_eq_some_iff.mp hopen
      rfl
    · rw [openElement_other hname] at hopen
      cases hopen
      rfl
  | 3, some pending =>
    by_cases hname : tag.name = "failure".toList
    · rw [openElement_failure hname] at hopen
      cases hopen
      rfl
    · rw [openElement_notFailure hname] at hopen
      cases hopen
      rfl

theorem isSome_report_closeElement {b : Builder} (h : b.report.isSome) :
    b.closeElement.report.isSome := by
  unfold closeElement
  split
  · exact h
  · rfl
  · exact h

theorem isSome_report_next? {b b' : Builder} {t : Token} (h : b.report.isSome)
    (hnext : b.next? t = some b') : b'.report.isSome := by
  unfold next? step at hnext
  cases t with
  | start tag => exact isSome_report_openElement (b := { b with depth := b.depth + 1 }) h hnext
  | empty tag =>
    dsimp only at hnext
    rw [toOption_bind] at hnext
    obtain ⟨opened, hopen, heq⟩ := Option.bind_eq_some_iff.mp hnext
    cases heq
    exact isSome_report_closeElement
      (isSome_report_openElement (b := { b with depth := b.depth + 1 }) h hopen)
  | close tag =>
    cases hnext
    exact isSome_report_closeElement h
  | text raw =>
    dsimp only at hnext
    split at hnext
    · cases hnext
      exact h
    · split at hnext
      · cases hnext
      · cases hnext
        exact h
  | cdata raw =>
    dsimp only at hnext
    split at hnext <;> cases hnext <;> exact h
  | comment raw | instruction raw | doctype raw =>
    cases hnext
    exact h

theorem foldlM_next?_titled {b : Builder} (h : b.report.isSome) (title : List Char)
    (ts : List Token) : ts.foldlM next? (b.titled title) =
      (ts.foldlM next? b).map (titled title) := by
  induction ts generalizing b with
  | nil => rfl
  | cons t ts ih =>
    rw [List.foldlM_cons, List.foldlM_cons, next?_titled h]
    cases hnext : b.next? t with
    | none => rfl
    | some b' => exact ih (isSome_report_next? h hnext)

end Builder

/-! ### The report of an outline -/

theorem value?_eq_of_attributes {tag : Tag} {attributes : List Attribute}
    (h : tag.attributes = ⟨attributes, none⟩) (key : String) :
    tag.value? key =
      match attributes.find? fun a => a.key == key.toList with
      | none => some none
      | some a => (unescape a.value).toOption.map some := by
  rw [Tag.value?, h]
  cases hfind : attributes.find? fun a => a.key == key.toList <;>
    simp [AttributeList.find?, hfind]

namespace Outline

variable {o : Outline} {tag : Tag} {ts : List Token}

/-- The root of a retitled document says the same as the original but for the name. -/
theorem Splits.rootReport?_titledTag (h : o.Splits tag ts) (hplain : o.Plain)
    (title : List Char) {report : Report} (hroot : Builder.rootReport? tag = some report) :
    Builder.rootReport? (o.titledTag title) = some (report.titled title) := by
  have hnew := h.attributes_titledTag hplain title
  have hother : ∀ key : String, key.toList ≠ titleKey →
      (o.titledTag title).value? key = tag.value? key := by
    intro key hkey
    rw [value?_eq_of_attributes hnew, value?_eq_of_attributes h.attributes,
      find?_retitledAttributes_of_ne h.nodup title hkey]
  have hname : (o.titledTag title).value? "name" = some (some title) := by
    have hfind := find?_retitledAttributes_title h.nodup title
    rw [value?_eq_of_attributes hnew]
    rw [titleKey] at hfind
    rw [hfind]
    simp [titleAttribute, unescape_escape]
  unfold Builder.rootReport? at hroot ⊢
  rw [hother "tests" (by decide), hother "failures" (by decide), hname]
  obtain ⟨tests, htests, hroot⟩ := Option.bind_eq_some_iff.mp hroot
  obtain ⟨failures, hfailures, hroot⟩ := Option.bind_eq_some_iff.mp hroot
  obtain ⟨name, -, hreport⟩ := Option.bind_eq_some_iff.mp hroot
  cases hreport
  rw [htests, hfailures]
  rfl

/-- The report of a document is that of its root, filled by the tokens behind it. -/
theorem Splits.foldlM_next? (h : o.Splits tag ts) :
    ts.foldlM Builder.next? .initial =
      (Builder.rootReport? tag).bind fun report =>
        o.back.foldlM Builder.next? ⟨o.root.depthAfter 0, some report, none, false⟩ := by
  rw [← h.tokens, tokensWith, List.foldlM_append,
    Builder.foldlM_next?_of_tagless rfl h.tagless]
  simp only [Option.bind_eq_bind, Option.bind_some, List.foldlM_cons,
    Builder.next?_root h.rootTag]
  cases Builder.rootReport? tag <;> rfl

end Outline

/-- A document whose root holds no double quote in its values and no quotes in its keys. -/
def PlainRoot (document : List Char) : Prop :=
  ∀ tag ∈ rootTag? document, ∀ a ∈ tag.attributes.attributes, a.Plain

instance (document : List Char) : Decidable (PlainRoot document) :=
  inferInstanceAs (Decidable (∀ tag ∈ rootTag? document, ∀ a ∈ tag.attributes.attributes, a.Plain))

theorem PlainRoot.outline {document : List Char} (hplain : PlainRoot document) {o : Outline}
    (ho : Outline.ofDocument? document = some o) : o.Plain := by
  obtain ⟨ts, tag, hread, -, hsplits⟩ := Outline.ofDocument?_eq_some_iff.mp ho
  have h := hplain tag (rootTag?_eq_some hread hsplits)
  rw [hsplits.attributes] at h
  exact h

/-- A retitled document gives the report of the original with the title as its name. -/
theorem parse_retitle {title document out : List Char} {report : Report}
    (hout : retitle title document = .ok out) (hreport : Report.parse document = .ok report)
    (hplain : PlainRoot document) :
    Report.parse out = .ok { report with suiteName := some (String.ofList title) } := by
  rw [← toOption_eq_some_iff, toOption_retitle] at hout
  obtain ⟨o, ho, rfl⟩ := Option.map_eq_some_iff.mp hout
  have hplain := hplain.outline ho
  obtain ⟨ts, tag, hread, -, hsplits⟩ := Outline.ofDocument?_eq_some_iff.mp ho
  obtain ⟨ts', b, hread', hfold, hdepth, hb⟩ := parse_eq_ok_iff.mp hreport
  obtain rfl : ts = ts' := by simpa using congrArg Reading.tokens (hread.symm.trans hread')
  obtain ⟨us, tag', hreread, -, hresplits⟩ := Outline.ofDocument?_eq_some_iff.mp
    (Outline.ofDocument?_render_retitled ho hplain title)
  rw [hsplits.foldlM_next?] at hfold
  obtain ⟨root, hroot, hback⟩ := Option.bind_eq_some_iff.mp hfold
  have htag : tag' = o.titledTag title := by
    have h := hresplits.rootTag
    rw [Outline.reread, Token.tag?_withTag hsplits.rootTag] at h
    exact (Option.some.inj h).symm
  have hroot' : Builder.rootReport? tag' = some (root.titled title) := by
    rw [htag]
    exact hsplits.rootReport?_titledTag hplain title hroot
  have hfold' : (us.map Located.token).foldlM Builder.next? .initial =
      some (b.titled title) := by
    rw [hresplits.foldlM_next?, hroot', Option.bind_some, Outline.reread,
      Token.depthAfter_withTag, Builder.foldlM_next?_map_usual, ← Builder.titled_mk,
      Builder.foldlM_next?_titled rfl, hback]
    rfl
  refine parse_eq_ok_iff.mpr ⟨us, b.titled title, hreread, hfold', hdepth, ?_⟩
  rw [Builder.titled, hb]
  rfl

def retitledSample : List Char :=
  "<testsuite name=\"old\"><testcase name=\"a.b.c\"><failure/></testcase></testsuite >".toList

/-- A title with quotes in place of an older one, with a failure in the report. -/
theorem parse_retitle_quoted : ∃ out report,
    retitle "a \"b\" & c".toList retitledSample = .ok out ∧
      Report.parse retitledSample = .ok report ∧ PlainRoot retitledSample ∧
        Report.parse out =
          .ok { report with suiteName := some (String.ofList "a \"b\" & c".toList) } := by
  have hout : (retitle "a \"b\" & c".toList retitledSample).toOption.isSome := by
    decide +kernel
  have hreport : (Report.parse retitledSample).toOption.isSome := by decide +kernel
  have hplain : PlainRoot retitledSample := by decide +kernel
  obtain ⟨out, hout⟩ := Option.isSome_iff_exists.mp hout
  obtain ⟨report, hreport⟩ := Option.isSome_iff_exists.mp hreport
  rw [toOption_eq_some_iff] at hout hreport
  exact ⟨out, report, hout, hreport, hplain, parse_retitle hout hreport hplain⟩

end Reports
end FirmwareTests
