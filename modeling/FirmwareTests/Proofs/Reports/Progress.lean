import FirmwareTests.Proofs.Markup.Rereading
import FirmwareTests.Reports.Builder

/-!
# Builders without positions

Positions matter to the errors of a builder and to nothing else. Which report a document
gives is therefore decided by its tokens alone, one `next?` for each.
-/

namespace FirmwareTests
namespace Markup

/-- The value of an attribute with its entities replaced, unless a fault keeps it from
being found or read. -/
def Tag.value? (tag : Tag) (key : String) : Option (Option (List Char)) :=
  match tag.attributes.find? key.toList with
  | .error _ => none
  | .ok none => some none
  | .ok (some raw) => (unescape raw).toOption.map some

end Markup

namespace Reports

open Markup

/-! ### Results without their errors -/

section

variable {ε ε' α β : Type}

@[simp] theorem toOption_ok (a : α) : (Except.ok a : Except ε α).toOption = some a := rfl

@[simp] theorem toOption_error (e : ε) : (Except.error e : Except ε α).toOption = none := rfl

@[simp] theorem toOption_pure (a : α) : (pure a : Except ε α).toOption = some a := rfl

@[simp] theorem toOption_bind (x : Except ε α) (f : α → Except ε β) :
    (x >>= f).toOption = x.toOption.bind fun a => (f a).toOption := by
  cases x <;> rfl

@[simp] theorem toOption_map (f : α → β) (x : Except ε α) :
    (f <$> x).toOption = x.toOption.map f := by
  cases x <;> rfl

@[simp] theorem toOption_mapError (x : Except ε α) (f : ε → ε') :
    (x.mapError f).toOption = x.toOption := by
  cases x <;> rfl

theorem toOption_eq_some_iff {x : Except ε α} {a : α} : x.toOption = some a ↔ x = .ok a := by
  cases x <;> simp

/-- Something gives a value for all of a row, or there is a first for which it fails. -/
theorem forall_ok_or_first_error (f : α → Except ε β) (xs : List α) :
    (∀ x ∈ xs, ∃ b, f x = .ok b) ∨ ∃ front x back e, xs = front ++ x :: back ∧
      (∀ y ∈ front, ∃ b, f y = .ok b) ∧ f x = .error e := by
  induction xs with
  | nil => simp
  | cons x xs ih =>
    cases hx : f x with
    | error e => exact .inr ⟨[], x, xs, e, rfl, by simp, hx⟩
    | ok b =>
      rcases ih with hall | ⟨front, y, back, e, rfl, hfront, hy⟩
      · exact .inl (List.forall_mem_cons.mpr ⟨⟨b, hx⟩, hall⟩)
      · exact .inr ⟨x :: front, y, back, e, rfl, List.forall_mem_cons.mpr ⟨⟨b, hx⟩, hfront⟩, hy⟩

end

namespace Builder

@[simp] theorem toOption_attributeValue (tag : Tag) (key : String) (position : Nat) :
    (attributeValue tag key position).toOption = tag.value? key := by
  unfold attributeValue Tag.value?
  cases tag.attributes.find? key.toList with
  | error fault => rfl
  | ok raw? =>
    cases raw? with
    | none => rfl
    | some raw =>
      dsimp only
      cases unescape raw <;> rfl

/-- The report of a root element without contents, if its attributes can be read. -/
def rootReport? (tag : Tag) : Option Report := do
  let tests ← tag.value? "tests"
  let failures ← tag.value? "failures"
  let name ← tag.value? "name"
  return {
    suiteName := name.map String.ofList
    declaredTests := declaredCount? tests
    declaredFailures := declaredCount? failures
    testCases := 0
    failedTestCases := 0
    results := ∅ }

@[simp] theorem toOption_rootReport (tag : Tag) (position : Nat) :
    (rootReport tag position).toOption = rootReport? tag := by
  simp only [rootReport, toOption_bind, toOption_attributeValue, toOption_pure]
  rfl

/-- The name of a test case, if it has one that can be read. -/
def caseName? (tag : Tag) : Option TestName := do
  let name ← (← tag.value? "name")
  (TestName.parse name).toOption

@[simp] theorem toOption_testCaseName (tag : Tag) (index position : Nat) :
    (testCaseName tag index position).toOption = caseName? tag := by
  simp only [testCaseName, caseName?, toOption_bind, toOption_mapError, toOption_attributeValue]
  cases tag.value? "name" with
  | none => rfl
  | some name? =>
    cases name? with
    | none => rfl
    | some name => simp

/-! ### Opening elements -/

section

variable {report : Report} {report? : Option Report} {pending : Pending}
variable {pending? : Option Pending} {inFailure : Bool} {tag : Tag}

theorem toOption_openElement_root (tag : Tag) (isEmpty : Bool) (position : Nat) :
    (openElement ⟨1, none, pending?, inFailure⟩ tag isEmpty position).toOption =
      (rootReport? tag).map fun report => ⟨1, some report, pending?, inFailure⟩ := by
  have h : openElement ⟨1, none, pending?, inFailure⟩ tag isEmpty position =
      (fun report => ⟨1, some report, pending?, inFailure⟩) <$>
        (rootReport tag position).mapError .malformed := by
    cases hroot : rootReport tag position <;> simp [openElement, hroot]
  rw [h, toOption_map, toOption_mapError, toOption_rootReport]

theorem toOption_openElement_testCase (hname : tag.name = "testcase".toList) (isEmpty : Bool)
    (position : Nat) :
    (openElement ⟨2, some report, pending?, inFailure⟩ tag isEmpty position).toOption =
      (caseName? tag).map fun name =>
        ⟨2, some { report with testCases := report.testCases + 1 }, some ⟨name, none⟩,
          inFailure⟩ := by
  have h : openElement ⟨2, some report, pending?, inFailure⟩ tag isEmpty position =
      if tag.name = "testcase".toList then
        testCaseName tag report.testCases position >>= fun name =>
          pure ⟨2, some { report with testCases := report.testCases + 1 }, some ⟨name, none⟩,
            inFailure⟩
      else pure ⟨2, some report, pending?, inFailure⟩ := rfl
  rw [h, if_pos hname, toOption_bind, toOption_testCaseName]
  cases caseName? tag <;> rfl

theorem openElement_other (hname : tag.name ≠ "testcase".toList) (isEmpty : Bool)
    (position : Nat) : openElement ⟨2, some report, pending?, inFailure⟩ tag isEmpty position =
      .ok ⟨2, some report, pending?, inFailure⟩ := by
  exact if_neg hname

theorem openElement_failure (hname : tag.name = "failure".toList) (isEmpty : Bool)
    (position : Nat) : openElement ⟨3, report?, some pending, inFailure⟩ tag isEmpty position =
      .ok ⟨3, report?, some { pending with failure := some [] }, !isEmpty⟩ := by
  exact if_pos hname

theorem openElement_notFailure (hname : tag.name ≠ "failure".toList) (isEmpty : Bool)
    (position : Nat) : openElement ⟨3, report?, some pending, inFailure⟩ tag isEmpty position =
      .ok ⟨3, report?, some pending, inFailure⟩ := by
  exact if_neg hname

end

/-- The builder after a token, unless the token is in error. -/
def next? (b : Builder) (t : Token) : Option Builder :=
  (b.step ⟨t, 0⟩).toOption

theorem toOption_openElement (b : Builder) (tag : Tag) (isEmpty : Bool) (p q : Nat) :
    (b.openElement tag isEmpty p).toOption = (b.openElement tag isEmpty q).toOption := by
  unfold openElement
  split
  · simp
  · split
    · simp
    · rfl
  · split <;> rfl
  · rfl

theorem toOption_step (b : Builder) (t : Located) : (b.step t).toOption = b.next? t.token := by
  obtain ⟨token, position⟩ := t
  unfold next? step
  cases token with
  | start tag => exact toOption_openElement _ tag false position 0
  | empty tag => simp only [toOption_bind, toOption_openElement _ tag true position 0]
  | text raw =>
    dsimp only
    split
    · rfl
    · split <;> rfl
  | _ => rfl

theorem toOption_foldlM_step (b : Builder) (ts : List Located) :
    (ts.foldlM step b).toOption = (ts.map Located.token).foldlM next? b := by
  induction ts generalizing b with
  | nil => rfl
  | cons t ts ih =>
    rw [List.foldlM_cons, toOption_bind, toOption_step, List.map_cons, List.foldlM_cons]
    simp only [ih]
    rfl

/-! ### Steps outside the root -/

theorem next?_of_tagless {b : Builder} (hdepth : b.depth = 0) {t : Token}
    (h : t.tag? = none) : b.next? t = some b := by
  obtain ⟨depth, report?, pending?, inFailure⟩ := b
  obtain rfl : depth = 0 := hdepth
  have hfailure : openFailure? ⟨0, report?, pending?, inFailure⟩ = none := by
    simp [openFailure?]
  unfold next? step
  cases t with
  | start tag | empty tag => cases h
  | text raw | cdata raw => simp only [hfailure, toOption_ok]
  | close tag | comment raw | instruction raw | doctype raw => rfl

theorem foldlM_next?_of_tagless {b : Builder} (hdepth : b.depth = 0) {ts : List Token}
    (h : ∀ t ∈ ts, t.tag? = none) : ts.foldlM next? b = some b := by
  induction ts with
  | nil => rfl
  | cons t ts ih =>
    rw [List.foldlM_cons, next?_of_tagless hdepth (h t List.mem_cons_self)]
    exact ih fun u hu => h u (List.mem_cons_of_mem t hu)

theorem next?_root {t : Token} {tag : Tag} (h : t.tag? = some tag) :
    initial.next? t = (rootReport? tag).map fun report =>
      ⟨t.depthAfter 0, some report, none, false⟩ := by
  unfold next? step
  cases t with
  | start tag' =>
    cases h
    exact toOption_openElement_root tag false 0
  | empty tag' =>
    cases h
    dsimp only
    rw [toOption_bind]
    have hopen : (openElement ⟨1, none, none, false⟩ tag true 0).toOption = _ :=
      toOption_openElement_root tag true 0
    simp only [initial, Nat.zero_add, hopen]
    cases rootReport? tag <;> rfl
  | _ => cases h

theorem next?_usual (b : Builder) (t : Token) : b.next? t.usual = b.next? t := by
  cases t <;> rfl

theorem foldlM_next?_map_usual (b : Builder) (ts : List Token) :
    (ts.map Token.usual).foldlM next? b = ts.foldlM next? b := by
  rw [List.foldlM_map]
  simp only [next?_usual]

theorem finish_eq_ok_iff {b : Builder} {ending : Ending} {report : Report} :
    b.finish ending = .ok report ↔
      ending = .complete ∧ b.depth = 0 ∧ b.report = some report := by
  cases ending with
  | broken fault => simp [finish]
  | complete =>
    by_cases hdepth : b.depth = 0
    · cases hreport : b.report <;> simp [finish, hdepth, hreport]
    · simp [finish, hdepth]

end Builder

/-- A document gives a report when its reading is complete and its tokens lead to one with
no element left open. -/
theorem parse_eq_ok_iff {document : List Char} {report : Report} :
    Report.parse document = .ok report ↔ ∃ ts b, read document = ⟨ts, .complete⟩ ∧
      (ts.map Located.token).foldlM Builder.next? .initial = some b ∧ b.depth = 0 ∧
        b.report = some report := by
  have hparse : (Report.parse document).toOption =
      (((read document).tokens.map Located.token).foldlM Builder.next? .initial).bind fun b =>
        (b.finish (read document).ending).toOption := by
    rw [Report.parse, Report.ofReading, toOption_bind, Builder.toOption_foldlM_step]
  rw [← toOption_eq_some_iff, hparse, Option.bind_eq_some_iff]
  constructor
  · rintro ⟨b, hfold, hfinish⟩
    rw [toOption_eq_some_iff] at hfinish
    obtain ⟨hending, hdepth, hreport⟩ := Builder.finish_eq_ok_iff.mp hfinish
    refine ⟨_, b, ?_, hfold, hdepth, hreport⟩
    rw [← hending]
  · rintro ⟨ts, b, hread, hfold, hdepth, hreport⟩
    refine ⟨b, ?_, ?_⟩
    · rw [hread]
      exact hfold
    · rw [toOption_eq_some_iff, hread]
      exact Builder.finish_eq_ok_iff.mpr ⟨rfl, hdepth, hreport⟩

end Reports
end FirmwareTests
