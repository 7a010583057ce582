import FirmwareTests.Proofs.Markup.Faults
import FirmwareTests.Proofs.Reports.SuiteName
import FirmwareTests.Proofs.Reports.TreeReading

/-!
# Two verdicts on a document

Reading a report and retitling it look at the structure of the same document: whether it
can be read to its end, whether there is an element, and whether all elements are closed.
Only reading a report goes on to look at what attributes and texts say. So the two find the
same flaw in the structure, but for faults of the content that reading a report meets before.
-/

namespace FirmwareTests
namespace Reports

open Markup

/-! ### Errors of the content -/

/-- Whether an error is about what the attributes and the texts of a report say. -/
def ReportError.isContent : ReportError → Bool
  | malformed fault => fault.error.isInner
  | noRoot => false
  | unclosed _ => false
  | unnamedTestCase _ => true
  | badTestCaseName _ _ => true

theorem of_bind_eq_error {ε α β : Type} {x : Except ε α} {f : α → Except ε β} {e : ε}
    (h : x >>= f = .error e) : x = .error e ∨ ∃ a, x = .ok a ∧ f a = .error e := by
  cases x with
  | error e' =>
    cases h
    exact .inl rfl
  | ok a => exact .inr ⟨a, rfl, h⟩

namespace Builder

variable {b b' : Builder} {tag : Tag} {position : Nat} {error : ReportError}

theorem isInner_of_attributeValue {key : String} {fault : Malformed}
    (h : attributeValue tag key position = .error fault) : fault.error.isInner = true := by
  unfold attributeValue at h
  split at h
  · cases h
    rfl
  · cases h
  · split at h <;> cases h
    rfl

theorem isInner_of_rootReport {fault : Malformed}
    (h : rootReport tag position = .error fault) : fault.error.isInner = true := by
  rcases of_bind_eq_error h with h | ⟨tests, -, h⟩
  · exact isInner_of_attributeValue h
  · rcases of_bind_eq_error h with h | ⟨failures, -, h⟩
    · exact isInner_of_attributeValue h
    · rcases of_bind_eq_error h with h | ⟨name, -, h⟩
      · exact isInner_of_attributeValue h
      · cases h

theorem isContent_of_testCaseName {index : Nat}
    (h : testCaseName tag index position = .error error) : error.isContent = true := by
  rcases of_bind_eq_error h with h | ⟨name?, -, h⟩
  · cases hvalue : attributeValue tag "name" position with
    | error fault =>
      rw [hvalue] at h
      cases h
      exact isInner_of_attributeValue hvalue
    | ok value? =>
      rw [hvalue] at h
      cases h
  · cases name? with
    | none =>
      cases h
      rfl
    | some name =>
      dsimp only at h
      cases hparse : TestName.parse name <;> rw [hparse] at h <;> cases h
      rfl

theorem isContent_of_openElement {isEmpty : Bool}
    (h : b.openElement tag isEmpty position = .error error) : error.isContent = true := by
  unfold openElement at h
  split at h
  · rcases of_bind_eq_error h with h | ⟨report, -, h⟩
    · cases hroot : rootReport tag position with
      | error fault =>
        rw [hroot] at h
        cases h
        exact isInner_of_rootReport hroot
      | ok report =>
        rw [hroot] at h
        cases h
    · cases h
  · split at h
    · rcases of_bind_eq_error h with h | ⟨name, -, h⟩
      · exact isContent_of_testCaseName h
      · cases h
    · cases h
  · split at h <;> cases h
  · cases h

theorem isContent_of_step {t : Located} (h : b.step t = .error error) :
    error.isContent = true := by
  unfold step at h
  split at h
  · exact isContent_of_openElement h
  · rcases of_bind_eq_error h with h | ⟨opened, -, h⟩
    · exact isContent_of_openElement h
    · cases h
  · cases h
  · split at h
    · cases h
    · split at h <;> cases h
      rfl
  · split at h <;> cases h
  · cases h

theorem isContent_of_foldlM_step {ts : List Located}
    (h : ts.foldlM step b = .error error) : error.isContent = true := by
  induction ts generalizing b with
  | nil => cases h
  | cons t ts ih =>
    rw [List.foldlM_cons] at h
    rcases of_bind_eq_error h with h | ⟨next, -, h⟩
    · exact isContent_of_step h
    · exact ih h

/-! ### What a builder has seen of the structure -/

theorem isSome_report_foldlM_next? {ts : List Token} (hreport : b.report.isSome = true)
    (h : ts.foldlM next? b = some b') : b'.report.isSome = true := by
  induction ts generalizing b with
  | nil =>
    cases h
    exact hreport
  | cons t ts ih =>
    rw [List.foldlM_cons] at h
    obtain ⟨between, hnext, hrest⟩ := Option.bind_eq_some_iff.mp h
    exact ih (isSome_report_next? hreport hnext) hrest

theorem isSome_report_eq {ts : List Token} (h : ts.foldlM next? .initial = some b) :
    b.report.isSome = (ts.findSome? Token.tag?).isSome := by
  induction ts with
  | nil =>
    cases h
    rfl
  | cons t ts ih =>
    rw [List.foldlM_cons] at h
    cases htag : t.tag? with
    | none =>
      rw [next?_of_tagless rfl htag] at h
      rw [List.findSome?_cons, htag]
      exact ih h
    | some tag =>
      rw [next?_root htag] at h
      obtain ⟨between, hnext, hrest⟩ := Option.bind_eq_some_iff.mp h
      obtain ⟨report, -, rfl⟩ := Option.map_eq_some_iff.mp hnext
      rw [List.findSome?_cons, htag]
      exact isSome_report_foldlM_next? rfl hrest

end Builder

/-! ### Flaws of the structure -/

/-- A flaw in the structure of a document. -/
inductive Flaw where
  | malformed (fault : Malformed)
  | noRoot
  | unclosed (depth : Nat)
  deriving DecidableEq, Repr

namespace Flaw

def reportError : Flaw → ReportError
  | malformed fault => .malformed fault
  | noRoot => .noRoot
  | unclosed depth => .unclosed depth

def retitleError : Flaw → RetitleError
  | malformed fault => .malformed fault
  | noRoot => .noRoot
  | unclosed depth => .unclosed depth

end Flaw

/-- The flaw in the structure of a reading, if there is one. -/
def flaw? (reading : Reading) : Option Flaw :=
  let tokens := reading.tokens.map Located.token
  match reading.ending, tokens.findSome? Token.tag? with
  | .broken fault, _ => some (.malformed fault)
  | .complete, none => some .noRoot
  | .complete, some _ =>
    let depth := openElements tokens
    if depth = 0 then none else some (.unclosed depth)

variable {ts : List Located} {tag : Tag} {title : List Char} {reading : Reading}

theorem flaw?_broken (ts : List Located) (fault : Malformed) :
    flaw? ⟨ts, .broken fault⟩ = some (.malformed fault) := rfl

theorem flaw?_of_tagless (h : (ts.map Located.token).findSome? Token.tag? = none) :
    flaw? ⟨ts, .complete⟩ = some .noRoot := by
  simp only [flaw?, h]

theorem flaw?_of_tag (h : (ts.map Located.token).findSome? Token.tag? = some tag) :
    flaw? ⟨ts, .complete⟩ =
      if openElements (ts.map Located.token) = 0 then none
      else some (.unclosed (openElements (ts.map Located.token))) := by
  simp only [flaw?, h]

theorem ending_of_flaw? {fault : Malformed} (h : flaw? reading = some (.malformed fault)) :
    reading.ending = .broken fault := by
  obtain ⟨ts, ending⟩ := reading
  cases ending with
  | broken fault' =>
    cases h
    rfl
  | complete =>
    cases htag : (ts.map Located.token).findSome? Token.tag? with
    | none =>
      rw [flaw?_of_tagless htag] at h
      cases h
    | some tag =>
      rw [flaw?_of_tag htag] at h
      split at h <;> cases h

theorem tagless_of_flaw? (h : flaw? reading = some .noRoot) :
    reading.ending = .complete ∧ ∀ t ∈ reading.tokens, t.token.tag? = none := by
  obtain ⟨ts, ending⟩ := reading
  cases ending with
  | broken fault => cases h
  | complete =>
    cases htag : (ts.map Located.token).findSome? Token.tag? with
    | none => exact ⟨rfl, by simpa using htag⟩
    | some tag =>
      rw [flaw?_of_tag htag] at h
      split at h <;> cases h

/-- A reading that meets no fault of the content has the verdict of its flaw. -/
theorem finish_eq {b : Builder} (h : reading.tokens.foldlM Builder.step .initial = .ok b) :
    match flaw? reading with
    | none => ∃ report, b.finish reading.ending = .ok report
    | some flaw => b.finish reading.ending = .error flaw.reportError := by
  rw [← toOption_eq_some_iff, Builder.toOption_foldlM_step] at h
  have hreport := Builder.isSome_report_eq h
  have hdepth : b.depth = openElements (reading.tokens.map Located.token) :=
    Builder.depth_foldlM_next? h
  obtain ⟨ts, ending⟩ := reading
  dsimp only at hreport hdepth ⊢
  cases ending with
  | broken fault =>
    rw [flaw?_broken]
    rfl
  | complete =>
    cases htag : (ts.map Located.token).findSome? Token.tag? with
    | none =>
      rw [htag] at hreport
      -- without a tag nothing has been opened
      have htagless : ∀ t ∈ ts.map Located.token, t.tag? = none :=
        List.findSome?_eq_none_iff.mp htag
      rw [Builder.foldlM_next?_of_tagless rfl htagless] at h
      cases h
      rw [flaw?_of_tagless htag]
      rfl
    | some tag =>
      rw [htag] at hreport
      obtain ⟨report, hsome⟩ := Option.isSome_iff_exists.mp hreport
      rw [flaw?_of_tag htag, ← hdepth]
      by_cases hzero : b.depth = 0
      · rw [if_pos hzero]
        exact ⟨report, by simp [Builder.finish, hzero, hsome]⟩
      · rw [if_neg hzero]
        simp [Builder.finish, hzero, Flaw.reportError]

/-- Reading a report fails about the content, or has the verdict of the flaw. -/
theorem ofReading_cases (reading : Reading) :
    (∃ error, Report.ofReading reading = .error error ∧ error.isContent = true) ∨
      match flaw? reading with
      | none => ∃ report, Report.ofReading reading = .ok report
      | some flaw => Report.ofReading reading = .error flaw.reportError := by
  rw [Report.ofReading]
  cases hfold : reading.tokens.foldlM Builder.step .initial with
  | error error => exact .inl ⟨error, rfl, Builder.isContent_of_foldlM_step hfold⟩
  | ok b => exact .inr (finish_eq hfold)

/-! ### Retitling and the structure -/

theorem retitledTokens_of_all_tagless (title : List Char)
    (h : ∀ t ∈ ts, t.token.tag? = none) : retitledTokens title ts = .ok none := by
  induction ts with
  | nil => rfl
  | cons t ts ih =>
    rw [retitledTokens_of_tagless title (h t List.mem_cons_self),
      ih fun u hu => h u (List.mem_cons_of_mem t hu)]
    rfl

/-- With a root that can be retitled, retitling has the verdict of the flaw. -/
theorem retitleReading_cases (title : List Char) (reading : Reading)
    (htag : (reading.tokens.map Located.token).findSome? Token.tag? = some tag)
    (hname : tag.name = rootName) (hfault : tag.attributes.fault = none) :
    match flaw? reading with
    | none => ∃ retitled, retitleReading title reading = .ok retitled
    | some flaw => retitleReading title reading = .error flaw.retitleError := by
  obtain ⟨ts, ending⟩ := reading
  obtain ⟨front, root, back, htokens, hroot, hfront⟩ := List.findSome?_eq_some_iff.mp htag
  let o : Outline := ⟨front, root, tag.attributes.attributes, back⟩
  have hsplits : o.Splits tag (ts.map Located.token) :=
    ⟨htokens.symm, hfront, hroot, hname, by rw [← hfault]⟩
  have hretitled := toOption_retitledTokens title ts
  rw [hsplits.ofTokens?, Option.map_some, Option.join_eq_some_iff, toOption_eq_some_iff]
    at hretitled
  have hdepth : openElements (o.retitled title) = openElements (ts.map Located.token) := by
    rw [openElements_retitled, hsplits.tokens]
  cases ending with
  | broken fault =>
    rw [flaw?_broken, retitleReading, hretitled]
    rfl
  | complete =>
    have hresult : retitleReading title ⟨ts, .complete⟩ =
        if openElements (o.retitled title) = 0 then .ok (render (o.retitled title))
        else .error (.unclosed (openElements (o.retitled title))) := by
      rw [retitleReading, hretitled]
      rfl
    rw [flaw?_of_tag htag, hresult, hdepth]
    by_cases hzero : openElements (ts.map Located.token) = 0
    · rw [if_pos hzero, if_pos hzero]
      exact ⟨_, rfl⟩
    · rw [if_neg hzero, if_neg hzero]
      rfl

/-! ### Documents without a root -/

theorem ofReading_eq_noRoot_iff :
    Report.ofReading reading = .error .noRoot ↔ flaw? reading = some .noRoot := by
  constructor
  · intro h
    rcases ofReading_cases reading with ⟨error, herror, hcontent⟩ | hverdict
    · rw [h] at herror
      cases herror
      cases hcontent
    · rw [h] at hverdict
      cases hflaw : flaw? reading with
      | none =>
        rw [hflaw] at hverdict
        obtain ⟨report, hreport⟩ := hverdict
        cases hreport
      | some flaw =>
        rw [hflaw] at hverdict
        cases flaw with
        | noRoot => rfl
        | malformed fault | unclosed depth => cases hverdict
  · intro h
    obtain ⟨-, htagless⟩ := tagless_of_flaw? h
    have hfold : reading.tokens.foldlM Builder.step .initial = .ok .initial := by
      rw [← toOption_eq_some_iff, Builder.toOption_foldlM_step]
      exact Builder.foldlM_next?_of_tagless rfl (by simpa using htagless)
    have hverdict := finish_eq hfold
    rw [h] at hverdict
    rw [Report.ofReading, hfold]
    exact hverdict

theorem retitledTag_ne_noRoot (title : List Char) (tag : Tag) (position : Nat) :
    retitledTag title tag position ≠ .error .noRoot := by
  unfold retitledTag
  split
  · split <;> simp
  · simp

/-- With a tag there is a root, which is retitled or refused. -/
theorem retitledTokens_of_findSome? (title : List Char)
    (h : (ts.map Located.token).findSome? Token.tag? = some tag) :
    (∃ error, retitledTokens title ts = .error error ∧ error ≠ .noRoot) ∨
      ∃ tokens, retitledTokens title ts = .ok (some tokens) := by
  induction ts with
  | nil => cases h
  | cons t ts ih =>
    cases htag : t.token.tag? with
    | none =>
      rw [List.map_cons, List.findSome?_cons, htag] at h
      rw [retitledTokens_of_tagless title htag]
      rcases ih h with ⟨error, herror, hne⟩ | ⟨tokens, htokens⟩
      · rw [herror]
        exact .inl ⟨error, rfl, hne⟩
      · rw [htokens]
        exact .inr ⟨_, rfl⟩
    | some tag' =>
      rw [retitledTokens_of_tag title htag]
      have hne := retitledTag_ne_noRoot title tag' t.position
      cases hretitled : retitledTag title tag' t.position with
      | error error =>
        rw [hretitled] at hne
        exact .inl ⟨error, rfl, fun heq => hne (congrArg Except.error heq)⟩
      | ok new => exact .inr ⟨_, rfl⟩

theorem retitleReading_eq_noRoot_iff (title : List Char) (reading : Reading) :
    retitleReading title reading = .error .noRoot ↔ flaw? reading = some .noRoot := by
  obtain ⟨ts, ending⟩ := reading
  constructor
  · intro h
    rw [retitleReading] at h
    cases htag : (ts.map Located.token).findSome? Token.tag? with
    | none =>
      rw [retitledTokens_of_all_tagless title (by simpa using htag)] at h
      cases ending with
      | broken fault => cases h
      | complete => exact flaw?_of_tagless htag
    | some tag =>
      rcases retitledTokens_of_findSome? title htag with ⟨error, herror, hne⟩ | ⟨tokens, htokens⟩
      · rw [herror] at h
        cases h
        exact absurd rfl hne
      · rw [htokens] at h
        cases ending with
        | broken fault => cases h
        | complete =>
          replace h : (if openElements tokens = 0 then .ok (render tokens)
            else .error (.unclosed (openElements tokens)) : Except RetitleError _) =
              .error .noRoot := h
          split at h <;> cases h
  · intro h
    obtain ⟨rfl, htagless⟩ := tagless_of_flaw? h
    rw [retitleReading, retitledTokens_of_all_tagless title htagless]
    rfl

/-! ### Both verdicts -/

def ContentFails (document : List Char) : Prop :=
  ∃ error, Report.parse document = .error error ∧ error.isContent = true

/-- Reading a report and retitling it have the same verdict on the structure of a document. -/
structure SameVerdict (title document : List Char) : Prop where
  /-- What gives a report can be retitled. -/
  parse_ok : ∀ report, Report.parse document = .ok report →
    ∃ retitled, retitle title document = .ok retitled
  /-- What can be retitled gives a report, if not for its content. -/
  retitle_ok : ∀ retitled, retitle title document = .ok retitled →
    (∃ report, Report.parse document = .ok report) ∨ ContentFails document
  parse_unclosed : ∀ depth, Report.parse document = .error (.unclosed depth) →
    retitle title document = .error (.unclosed depth)
  parse_malformed : ∀ fault, Report.parse document = .error (.malformed fault) →
    fault.error.isInner = false → retitle title document = .error (.malformed fault)
  retitle_unclosed : ∀ depth, retitle title document = .error (.unclosed depth) →
    Report.parse document = .error (.unclosed depth) ∨ ContentFails document
  retitle_malformed : ∀ fault, retitle title document = .error (.malformed fault) →
    fault.error.isInner = false ∧
      (Report.parse document = .error (.malformed fault) ∨ ContentFails document)
  /-- The faults that are not inner are those of reading the document. -/
  reader : ∀ fault, (read document).ending = .broken fault → fault.error.isInner = false

section

variable {document : List Char} {flaw : Flaw}

theorem parse_of_flaw? (h : flaw? (read document) = some flaw) :
    Report.parse document = .error flaw.reportError ∨ ContentFails document := by
  rcases ofReading_cases (read document) with hcontent | hverdict
  · exact .inr hcontent
  · rw [h] at hverdict
    exact .inl hverdict

theorem parse_of_flaw?_none (h : flaw? (read document) = none) :
    (∃ report, Report.parse document = .ok report) ∨ ContentFails document := by
  rcases ofReading_cases (read document) with hcontent | hverdict
  · exact .inr hcontent
  · rw [h] at hverdict
    exact .inl hverdict

theorem flaw?_of_parse_ok {report : Report} (h : Report.parse document = .ok report) :
    flaw? (read document) = none := by
  cases hflaw : flaw? (read document) with
  | none => rfl
  | some flaw =>
    rcases parse_of_flaw? hflaw with hparse | ⟨error, hparse, -⟩ <;> rw [h] at hparse <;>
      cases hparse

theorem flaw?_of_parse_error {error : ReportError} (h : Report.parse document = .error error)
    (hcontent : error.isContent = false) :
    ∃ flaw, flaw? (read document) = some flaw ∧ error = flaw.reportError := by
  rcases ofReading_cases (read document) with ⟨error', herror, hcontent'⟩ | hverdict
  · have heq : error = error' := Except.error.inj (h.symm.trans herror)
    rw [heq, hcontent'] at hcontent
    cases hcontent
  · cases hflaw : flaw? (read document) with
    | none =>
      rw [hflaw] at hverdict
      obtain ⟨report, hreport⟩ := hverdict
      cases h.symm.trans hreport
    | some flaw =>
      rw [hflaw] at hverdict
      exact ⟨flaw, rfl, Except.error.inj (h.symm.trans hverdict)⟩

/-- With a root that can be retitled the verdicts are the same. -/
theorem sameVerdict (title : List Char) (htag : rootTag? document = some tag)
    (hname : tag.name = rootName) (hfault : tag.attributes.fault = none) :
    SameVerdict title document := by
  rw [rootTag?] at htag
  have hverdict := retitleReading_cases title (read document)
    (by rw [List.findSome?_map]; exact htag) hname hfault
  have hflawed {flaw : Flaw} (hflaw : flaw? (read document) = some flaw) :
      retitle title document = .error flaw.retitleError := by
    rw [hflaw] at hverdict
    exact hverdict
  have hsound (hflaw : flaw? (read document) = none) :
      ∃ retitled, retitle title document = .ok retitled := by
    rw [hflaw] at hverdict
    exact hverdict
  have hrefused {error : RetitleError} (h : retitle title document = .error error) :
      ∃ flaw, flaw? (read document) = some flaw ∧ error = flaw.retitleError := by
    cases hflaw : flaw? (read document) with
    | none =>
      obtain ⟨retitled, hok⟩ := hsound hflaw
      cases h.symm.trans hok
    | some flaw => exact ⟨flaw, rfl, Except.error.inj (h.symm.trans (hflawed hflaw))⟩
  constructor
  case parse_ok =>
    intro report h
    exact hsound (flaw?_of_parse_ok h)
  case retitle_ok =>
    intro retitled h
    apply parse_of_flaw?_none
    cases hflaw : flaw? (read document) with
    | none => rfl
    | some flaw => cases h.symm.trans (hflawed hflaw)
  case parse_unclosed =>
    intro depth h
    obtain ⟨flaw, hflaw, heq⟩ := flaw?_of_parse_error h rfl
    cases flaw <;> cases heq
    exact hflawed hflaw
  case parse_malformed =>
    intro fault h hinner
    obtain ⟨flaw, hflaw, heq⟩ := flaw?_of_parse_error h hinner
    cases flaw <;> cases heq
    exact hflawed hflaw
  case retitle_unclosed =>
    intro depth h
    obtain ⟨flaw, hflaw, heq⟩ := hrefused h
    cases flaw <;> cases heq
    exact parse_of_flaw? hflaw
  case retitle_malformed =>
    intro fault h
    obtain ⟨flaw, hflaw, heq⟩ := hrefused h
    cases flaw <;> cases heq
    exact ⟨isInner_of_read (ending_of_flaw? hflaw), parse_of_flaw? hflaw⟩
  case reader => exact fun fault => isInner_of_read

/-- Reading a report and retitling it agree on whether there is a root, and with a root that
can be retitled they agree on the structure of the document. -/
theorem parse_retitle_agree (title document : List Char) :
    (Report.parse document = .error .noRoot ↔ retitle title document = .error .noRoot) ∧
      ∀ tag, rootTag? document = some tag → tag.name = rootName →
        tag.attributes.fault = none → SameVerdict title document := by
  constructor
  · exact ofReading_eq_noRoot_iff.trans (retitleReading_eq_noRoot_iff title _).symm
  · intro tag htag hname hfault
    exact sameVerdict title htag hname hfault

/-- A report that ends too early, and one that has a fault of the content before that. -/
theorem parse_retitle_agree_unclosed :
    Report.parse "<testsuite><testcase name='s.c.a'/>".toList = .error (.unclosed 1) ∧
      retitle [] "<testsuite><testcase name='s.c.a'/>".toList = .error (.unclosed 1) ∧
        retitle [] "<testsuite><testcase name='s'>".toList = .error (.unclosed 2) ∧
          ContentFails "<testsuite><testcase name='s'>".toList := by
  have hparse : Report.parse "<testsuite><testcase name='s.c.a'/>".toList =
      .error (.unclosed 1) := by
    decide +kernel
  have hretitle : retitle [] "<testsuite><testcase name='s'>".toList = .error (.unclosed 2) := by
    decide +kernel
  have hverdict (document : List Char) (htag : rootTag? document = some ⟨rootName⟩) :
      SameVerdict [] document :=
    (parse_retitle_agree [] document).2 ⟨rootName⟩ htag (by decide) (by decide +kernel)
  refine ⟨hparse, ?_, hretitle, ?_⟩
  · exact (hverdict _ (by decide +kernel)).parse_unclosed 1 hparse
  · rcases (hverdict _ (by decide +kernel)).retitle_unclosed 2 hretitle with hunclosed | hcontent
    · have hother : Report.parse "<testsuite><testcase name='s'>".toList ≠
          .error (.unclosed 2) := by
        decide +kernel
      exact absurd hunclosed hother
    · exact hcontent

end

end Reports
end FirmwareTests
