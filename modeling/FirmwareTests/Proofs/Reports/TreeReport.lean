import FirmwareTests.Proofs.Reports.TreeReading

/-!
# The report of a tree

What a report says, told from the tree of its document: which documents have a report,
how many test cases it counts, and which outcomes it records.
-/

namespace FirmwareTests
namespace Reports

open Markup

def leafText : Token → List Char
  | .text raw => (unescape raw).toOption.getD []
  | .cdata raw => raw
  | _ => []

/-- The text directly inside a failure. -/
def failureText (failure : Element) : List Char :=
  failure.content.leaves.flatMap leafText

/-- The failures directly inside a test case. -/
def failuresIn (testCase : Element) : List Element :=
  testCase.content.named "failure"

/-- The test cases directly inside the root. -/
def testCasesIn (root : Element) : List Element :=
  root.content.named "testcase"

/-- The outcome of a test case is that of its last failure. -/
def treeOutcome (testCase : Element) : Outcome :=
  match (failuresIn testCase).getLast? with
  | none => .passed
  | some failure => .failed (String.ofList (Text.trim (failureText failure)))

def treeResult? (testCase : Element) : Option (TestName × Outcome) :=
  (Builder.caseName? testCase.tag).map fun name => (name, treeOutcome testCase)

def LegibleFailure (failure : Element) : Prop :=
  ∀ raw, .text raw ∈ failure.content.leaves → ∃ text, unescape raw = .ok text

/-- A root that a report can be read from. -/
structure Readable (root : Element) : Prop where
  attributes : ∀ key ∈ ["tests", "failures", "name"], (root.tag.value? key).isSome
  names : ∀ testCase ∈ testCasesIn root, ∃ name,
    testCase.tag.value? "name" = some (some name) ∧ name.count '.' = 2
  texts : ∀ testCase ∈ testCasesIn root, ∀ failure ∈ failuresIn testCase, LegibleFailure failure

/-- A report that says what the tree below a root says. -/
structure Describes (root : Element) (report : Report) : Prop where
  suiteName : root.tag.value? "name" = some (report.suiteName.map String.toList)
  declaredTests : (root.tag.value? "tests").map declaredCount? = some report.declaredTests
  declaredFailures : (root.tag.value? "failures").map declaredCount? = some report.declaredFailures
  testCases : report.testCases = (testCasesIn root).length
  failedTestCases : report.failedTestCases =
    ((testCasesIn root).filter fun testCase => failuresIn testCase ≠ []).length
  results : ∃ results : List (TestName × Outcome), (testCasesIn root).map treeResult? = results.map some ∧
    report.results = results.foldl (fun set result => set.insert result.1 result.2) ∅

/-! ### Texts -/

section

variable {α β : Type} {step : β → α → Option β} {P : α → Prop} {value : β → α → β}

theorem foldlM_eq_some_iff (hstep : ∀ b x c, step b x = some c ↔ P x ∧ c = value b x)
    {xs : List α} {b c : β} :
    xs.foldlM step b = some c ↔ (∀ x ∈ xs, P x) ∧ c = xs.foldl value b := by
  induction xs generalizing b with
  | nil => simp [eq_comm]
  | cons x xs ih =>
    rw [List.foldlM_cons, Option.bind_eq_bind, Option.bind_eq_some_iff, List.foldl_cons,
      List.forall_mem_cons]
    constructor
    · rintro ⟨between, hfirst, hrest⟩
      obtain ⟨hx, rfl⟩ := (hstep b x between).mp hfirst
      obtain ⟨hxs, hc⟩ := ih.mp hrest
      exact ⟨⟨hx, hxs⟩, hc⟩
    · rintro ⟨⟨hx, hxs⟩, hc⟩
      exact ⟨_, (hstep b x _).mpr ⟨hx, rfl⟩, ih.mpr ⟨hxs, hc⟩⟩

end

theorem addText?_eq_some_iff (text : List Char) (t : Token) (more : List Char) :
    addText? text t = some more ↔
      (∀ raw, t = .text raw → ∃ here, unescape raw = .ok here) ∧ more = text ++ leafText t := by
  cases t with
  | text raw =>
    cases hraw : unescape raw with
    | error fault => simp [addText?, hraw]
    | ok here => simp [addText?, leafText, hraw, eq_comm]
  | cdata raw => simp [addText?, leafText, eq_comm]
  | _ => simp [addText?, leafText, eq_comm]

theorem addFailure?_eq_some_iff (earlier : Option (List Char)) (failure : Element)
    (last : Option (List Char)) : addFailure? earlier failure = some last ↔
      LegibleFailure failure ∧ last = some (failureText failure) := by
  rw [addFailure?, Option.map_eq_some_iff]
  have hfold : ∀ text, failure.content.leaves.foldlM addText? [] = some text ↔ _ :=
    fun text => foldlM_eq_some_iff addText?_eq_some_iff
  have htext : failure.content.leaves.foldl (fun text t => text ++ leafText t) [] =
      failureText failure := by
    rw [failureText, List.flatMap_eq_foldl]
  simp only [hfold, htext]
  constructor
  · rintro ⟨text, ⟨hlegible, rfl⟩, rfl⟩
    exact ⟨fun raw hraw => hlegible _ hraw raw rfl, rfl⟩
  · rintro ⟨hlegible, rfl⟩
    refine ⟨_, ⟨?_, rfl⟩, rfl⟩
    rintro t ht raw rfl
    exact hlegible raw ht

theorem foldl_failureText (failures : List Element) :
    failures.foldl (fun _ failure => some (failureText failure)) none =
      failures.getLast?.map failureText := by
  rcases List.eq_nil_or_concat failures with rfl | ⟨front, last, rfl⟩
  · rfl
  · simp

/-! ### Test cases -/

def Report.add (report : Report) (result : TestName × Outcome) : Report :=
  { report with
    testCases := report.testCases + 1
    failedTestCases :=
      if result.2.isPassed then report.failedTestCases else report.failedTestCases + 1
    results := report.results.insert result.1 result.2 }

@[simp] theorem testCases_add (report : Report) (result : TestName × Outcome) :
    (report.add result).testCases = report.testCases + 1 := rfl

@[simp] theorem failedTestCases_add (report : Report) (result : TestName × Outcome) :
    (report.add result).failedTestCases =
      if result.2.isPassed then report.failedTestCases else report.failedTestCases + 1 := rfl

theorem record_eq_add (report : Report) (testCase : Element) (name : TestName) :
    Builder.record { report with testCases := report.testCases + 1 }
        ⟨name, (failuresIn testCase).getLast?.map failureText⟩ =
      report.add (name, treeOutcome testCase) := by
  have houtcome : Pending.outcome ⟨name, (failuresIn testCase).getLast?.map failureText⟩ =
      treeOutcome testCase := by
    unfold treeOutcome Pending.outcome
    cases (failuresIn testCase).getLast? <;> rfl
  rw [Builder.record, houtcome]
  rfl

theorem addTestCase?_eq_some_iff {report added : Report} {testCase : Element} :
    addTestCase? report testCase = some added ↔
      (∀ failure ∈ failuresIn testCase, LegibleFailure failure) ∧
        ∃ result, treeResult? testCase = some result ∧ added = report.add result := by
  have hfold : ∀ failure, (testCase.content.named "failure").foldlM addFailure? none =
      some failure ↔ (∀ failure ∈ failuresIn testCase, LegibleFailure failure) ∧
        failure = (failuresIn testCase).getLast?.map failureText := by
    intro failure
    rw [foldlM_eq_some_iff addFailure?_eq_some_iff, foldl_failureText]
    rfl
  unfold addTestCase? treeResult?
  cases hname : Builder.caseName? testCase.tag with
  | none => simp
  | some name =>
    constructor
    · intro h
      rw [Option.bind_eq_bind, Option.bind_some] at h
      obtain ⟨failure, hfailure, hadded⟩ := Option.bind_eq_some_iff.mp h
      obtain ⟨hlegible, rfl⟩ := (hfold failure).mp hfailure
      cases hadded
      exact ⟨hlegible, _, rfl, record_eq_add report testCase name⟩
    · rintro ⟨hlegible, result, hresult, rfl⟩
      cases hresult
      rw [← record_eq_add, Option.bind_eq_bind, Option.bind_some]
      exact Option.bind_eq_some_iff.mpr ⟨_, (hfold _).mpr ⟨hlegible, rfl⟩, rfl⟩

theorem foldlM_addTestCase?_eq_some_iff {elements : List Element} {report last : Report} :
    elements.foldlM addTestCase? report = some last ↔
      (∀ testCase ∈ elements, ∀ failure ∈ failuresIn testCase, LegibleFailure failure) ∧
        ∃ results : List (TestName × Outcome), elements.map treeResult? = results.map some ∧
          last = results.foldl Report.add report := by
  induction elements generalizing report with
  | nil =>
    constructor
    · intro h
      cases h
      exact ⟨by simp, [], rfl, rfl⟩
    · rintro ⟨-, results, hresults, rfl⟩
      cases results with
      | nil => rfl
      | cons => cases hresults
  | cons testCase elements ih =>
    rw [List.foldlM_cons, Option.bind_eq_bind, Option.bind_eq_some_iff, List.forall_mem_cons]
    constructor
    · rintro ⟨between, hfirst, hrest⟩
      obtain ⟨hlegible, result, hresult, rfl⟩ := addTestCase?_eq_some_iff.mp hfirst
      obtain ⟨hlegibles, results, hresults, rfl⟩ := ih.mp hrest
      refine ⟨⟨hlegible, hlegibles⟩, result :: results, ?_, rfl⟩
      rw [List.map_cons, List.map_cons, hresult, hresults]
    · rintro ⟨⟨hlegible, hlegibles⟩, results, hresults, rfl⟩
      cases results with
      | nil => cases hresults
      | cons result results =>
        rw [List.map_cons, List.map_cons] at hresults
        obtain ⟨hresult, hresults⟩ := List.cons.inj hresults
        exact ⟨_, addTestCase?_eq_some_iff.mpr ⟨hlegible, result, hresult, rfl⟩,
          ih.mpr ⟨hlegibles, results, hresults, rfl⟩⟩

/-- Test cases are added one after the other, whichever elements they are in. -/
theorem foldlM_addTestCases?_eq (elements : List Element) (report : Report) :
    elements.foldlM addTestCases? report =
      (elements.flatMap testCasesIn).foldlM addTestCase? report := by
  induction elements generalizing report with
  | nil => rfl
  | cons e elements ih =>
    rw [List.foldlM_cons, List.flatMap_cons, List.foldlM_append, ← funext ih]
    rfl

/-! ### Counts -/

theorem foldl_add (report : Report) (results : List (TestName × Outcome)) :
    results.foldl Report.add report =
      { report with
        testCases := report.testCases + results.length
        failedTestCases :=
          report.failedTestCases + results.countP fun result => !result.2.isPassed
        results := results.foldl (fun set result => set.insert result.1 result.2)
          report.results } := by
  induction results generalizing report with
  | nil => rfl
  | cons result results ih =>
    rw [List.foldl_cons, ih, Report.mk.injEq]
    refine ⟨rfl, rfl, rfl, ?_, ?_, rfl⟩
    · rw [testCases_add, List.length_cons]
      omega
    · rw [failedTestCases_add, List.countP_cons]
      cases result.2.isPassed <;> simp
      omega

theorem isPassed_treeOutcome (testCase : Element) :
    (treeOutcome testCase).isPassed = true ↔ failuresIn testCase = [] := by
  unfold treeOutcome
  split
  · next h => simpa [Outcome.isPassed] using h
  · next failure h =>
    have hne : failuresIn testCase ≠ [] := by
      intro hnil
      rw [hnil] at h
      cases h
    simpa [Outcome.isPassed] using hne

theorem countP_results {elements : List Element} {results : List (TestName × Outcome)}
    (h : elements.map treeResult? = results.map some) :
    results.countP (fun result => !result.2.isPassed) =
      (elements.filter fun testCase => failuresIn testCase ≠ []).length := by
  induction elements generalizing results with
  | nil =>
    cases results with
    | nil => rfl
    | cons => cases h
  | cons testCase elements ih =>
    cases results with
    | nil => cases h
    | cons result results =>
      rw [List.map_cons, List.map_cons] at h
      obtain ⟨hresult, hresults⟩ := List.cons.inj h
      obtain ⟨name, -, rfl⟩ := Option.map_eq_some_iff.mp hresult
      rw [List.countP_cons, ih hresults, List.filter_cons]
      by_cases hfailures : failuresIn testCase = []
      · have hpassed := (isPassed_treeOutcome testCase).mpr hfailures
        simp [hpassed, hfailures]
      · have hpassed : (treeOutcome testCase).isPassed = false := by
          rw [← Bool.not_eq_true, isPassed_treeOutcome]
          exact hfailures
        simp [hpassed, hfailures]

/-! ### Names -/

theorem exists_parse_iff (value : List Char) :
    (∃ name, TestName.parse value = .ok name) ↔ value.count '.' = 2 := by
  have hlength := Text.length_segments '.' value
  unfold TestName.parse
  split
  · next suite testCase assertion h =>
    rw [h] at hlength
    simp only [List.length_cons, List.length_nil] at hlength
    constructor
    · intro _
      omega
    · intro _
      exact ⟨_, rfl⟩
  · next parts h =>
    constructor
    · rintro ⟨name, hname⟩
      cases hname
    · intro hcount
      rw [hcount] at hlength
      match hsegments : Text.segments '.' value, hlength with
      | [suite, testCase, assertion], _ => exact absurd hsegments (h suite testCase assertion)

theorem exists_caseName?_iff (tag : Tag) : (∃ name, Builder.caseName? tag = some name) ↔
    ∃ value, tag.value? "name" = some (some value) ∧ value.count '.' = 2 := by
  unfold Builder.caseName?
  cases hvalue : tag.value? "name" with
  | none => simp
  | some value? =>
    cases value? with
    | none => simp
    | some value =>
      have hparse : (∃ name, (TestName.parse value).toOption = some name) ↔
          value.count '.' = 2 := by
        simp only [toOption_eq_some_iff, exists_parse_iff]
      simpa using hparse

theorem exists_results_iff (elements : List Element) :
    (∃ results : List (TestName × Outcome), elements.map treeResult? = results.map some) ↔
      ∀ testCase ∈ elements, ∃ name, Builder.caseName? testCase.tag = some name := by
  induction elements with
  | nil =>
    constructor
    · simp
    · intro _
      exact ⟨[], rfl⟩
  | cons testCase elements ih =>
    rw [List.forall_mem_cons, ← ih]
    constructor
    · rintro ⟨results, h⟩
      cases results with
      | nil => cases h
      | cons result results =>
        rw [List.map_cons, List.map_cons] at h
        obtain ⟨hresult, hresults⟩ := List.cons.inj h
        obtain ⟨name, hname, -⟩ := Option.map_eq_some_iff.mp hresult
        exact ⟨⟨name, hname⟩, results, hresults⟩
    · rintro ⟨⟨name, hname⟩, results, hresults⟩
      refine ⟨(name, treeOutcome testCase) :: results, ?_⟩
      rw [List.map_cons, List.map_cons, hresults, treeResult?, hname]
      rfl

/-! ### Reports -/

theorem rootReport?_eq_some_iff {tag : Tag} {report : Report} :
    Builder.rootReport? tag = some report ↔ ∃ tests failures name,
      tag.value? "tests" = some tests ∧ tag.value? "failures" = some failures ∧
        tag.value? "name" = some name ∧
          report = ⟨name.map String.ofList, declaredCount? tests, declaredCount? failures, 0, 0, ∅⟩ := by
  unfold Builder.rootReport?
  cases tag.value? "tests" with
  | none => simp
  | some tests =>
    cases tag.value? "failures" with
    | none => simp
    | some failures =>
      cases tag.value? "name" with
      | none => simp
      | some name => simp [eq_comm]

/-- A report is begun with any root whose attributes can be read. -/
theorem exists_rootReport? {tag : Tag}
    (h : ∀ key ∈ ["tests", "failures", "name"], (tag.value? key).isSome) :
    ∃ tests failures name, Builder.rootReport? tag =
      some ⟨name, declaredCount? tests, declaredCount? failures, 0, 0, ∅⟩ := by
  obtain ⟨tests, htests⟩ := Option.isSome_iff_exists.mp (h "tests" (by simp))
  obtain ⟨failures, hfailures⟩ := Option.isSome_iff_exists.mp (h "failures" (by simp))
  obtain ⟨name, hname⟩ := Option.isSome_iff_exists.mp (h "name" (by simp))
  exact ⟨tests, failures, name.map String.ofList,
    rootReport?_eq_some_iff.mpr ⟨tests, failures, name, htests, hfailures, hname, rfl⟩⟩

theorem ofElements?_singleton (root : Element) : Report.ofElements? [root] =
    (Builder.rootReport? root.tag).bind fun report =>
      (testCasesIn root).foldlM addTestCase? report := by
  rw [Report.ofElements?]
  cases Builder.rootReport? root.tag with
  | none => rfl
  | some report =>
    rw [Option.bind_eq_bind, Option.bind_some, Option.bind_some, List.foldlM_cons, addTestCases?,
      testCasesIn]
    cases (root.content.named "testcase").foldlM addTestCase? report <;> rfl

theorem exists_ofElements?_iff (root : Element) :
    (∃ report, Report.ofElements? [root] = some report) ↔ Readable root := by
  simp only [ofElements?_singleton, Option.bind_eq_some_iff, rootReport?_eq_some_iff,
    foldlM_addTestCase?_eq_some_iff]
  constructor
  · rintro ⟨last, report, ⟨tests, failures, name, htests, hfailures, hname, -⟩, hlegible,
      results, hresults, -⟩
    refine ⟨?_, ?_, hlegible⟩
    · simp [htests, hfailures, hname]
    · intro testCase htestCase
      exact (exists_caseName?_iff _).mp
        ((exists_results_iff _).mp ⟨results, hresults⟩ testCase htestCase)
  · intro h
    obtain ⟨tests, htests⟩ := Option.isSome_iff_exists.mp (h.attributes "tests" (by simp))
    obtain ⟨failures, hfailures⟩ := Option.isSome_iff_exists.mp (h.attributes "failures" (by simp))
    obtain ⟨name, hname⟩ := Option.isSome_iff_exists.mp (h.attributes "name" (by simp))
    obtain ⟨results, hresults⟩ := (exists_results_iff (testCasesIn root)).mpr
      fun testCase htestCase => (exists_caseName?_iff _).mpr (h.names testCase htestCase)
    exact ⟨_, _, ⟨tests, failures, name, htests, hfailures, hname, rfl⟩, h.texts, results,
      hresults, rfl⟩

theorem describes_of_ofElements? {root : Element} {report : Report}
    (h : Report.ofElements? [root] = some report) : Describes root report := by
  rw [ofElements?_singleton, Option.bind_eq_some_iff] at h
  obtain ⟨empty, hempty, hfold⟩ := h
  obtain ⟨tests, failures, name, htests, hfailures, hname, rfl⟩ :=
    rootReport?_eq_some_iff.mp hempty
  obtain ⟨-, results, hresults, rfl⟩ := foldlM_addTestCase?_eq_some_iff.mp hfold
  have hlength : (testCasesIn root).length = results.length := by
    simpa using congrArg List.length hresults
  rw [foldl_add]
  refine ⟨?_, ?_, ?_, ?_, ?_, results, hresults, rfl⟩
  · cases name <;> simp [hname]
  · simp [htests]
  · simp [hfailures]
  · simp [hlength]
  · simp [countP_results hresults]

/-- Reading a report agrees with the tree of the document: there is a report exactly when
the attributes of the root, the names of the test cases and the texts of the failures can
be read, and it says what the tree says. -/
theorem parse_tree {document : List Char} {root : Element}
    (hcomplete : (read document).ending = .complete)
    (hclosed : openElements ((read document).tokens.map Located.token) = 0)
    (hroot : topElements document = [root]) :
    ((∃ report, Report.parse document = .ok report) ↔ Readable root) ∧
      ∀ report, Report.parse document = .ok report → Describes root report := by
  have hparse : ∀ report, Report.parse document = .ok report ↔
      Report.ofElements? [root] = some report := by
    intro report
    rw [parse_eq_ok_iff_ofElements?, hroot]
    simp [hcomplete, hclosed]
  simp only [hparse]
  exact ⟨exists_ofElements?_iff root, fun report => describes_of_ofElements?⟩

/-- A test case with an empty failure after one with a text. -/
def treeSample : List Char :=
  "<r><testcase name=\"a.b.c\"><failure>x</failure><failure/></testcase></r>".toList

def treeSampleRoot : Element where
  tag := ⟨"r".toList⟩
  content :=
    .element ⟨"testcase name=\"a.b.c\"".toList⟩
      (.element ⟨"failure".toList⟩ (.leaf (.text "x".toList) .nil)
        (.element ⟨"failure".toList⟩ .nil .nil))
      .nil

theorem parse_tree_sample : (read treeSample).ending = .complete ∧
    openElements ((read treeSample).tokens.map Located.token) = 0 ∧
      topElements treeSample = [treeSampleRoot] ∧
        ((∃ report, Report.parse treeSample = .ok report) ↔ Readable treeSampleRoot) ∧
          ∀ report, Report.parse treeSample = .ok report → Describes treeSampleRoot report := by
  have hcomplete : (read treeSample).ending = .complete := by decide +kernel
  have hclosed : openElements ((read treeSample).tokens.map Located.token) = 0 := by
    decide +kernel
  have hroot : topElements treeSample = [treeSampleRoot] := by decide +kernel
  exact ⟨hcomplete, hclosed, hroot, parse_tree hcomplete hclosed hroot⟩

end Reports
end FirmwareTests
