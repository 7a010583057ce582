import FirmwareTests.Proofs.Markup.Continuation
import FirmwareTests.Proofs.Reports.TreeReport

/-!
# Elements after the root

A document that ends where its root closes can go on with further elements. They leave
the report as it is exactly when none of them has a test case directly inside it: test
cases are known by their depth, and not by the root.
-/

namespace FirmwareTests
namespace Reports

open Markup Text

/-- A document that ends with the tag that closes its root. -/
def EndsAtRoot (document : List Char) : Prop :=
  (topElements document).length = 1 ∧ ∃ last ∈ (read document).tokens.getLast?,
    last.token.isLeaf = false ∧ last.position = byteLength (dropByteOrderMark document)

instance (document : List Char) : Decidable (EndsAtRoot document) :=
  inferInstanceAs (Decidable (_ ∧ ∃ last ∈ _, _ ∧ _))

theorem openNames_of_parse {document : List Char} {report : Report}
    (h : Report.parse document = .ok report) :
    openNames [] ((read document).tokens.map Located.token) = some [] := by
  obtain ⟨hending, hclosed, -⟩ := parse_eq_ok_iff_ofElements?.mp h
  exact openNames_of_closed hending hclosed

/-- The top-level elements of a document stay when more is written behind it. -/
theorem exists_topElements_append {document more : List Char} {report report' : Report}
    (hends : EndsAtRoot document) (hreport : Report.parse document = .ok report)
    (hreport' : Report.parse (document ++ more) = .ok report') :
    ∃ later, topElements (document ++ more) = topElements document ++ later := by
  obtain ⟨-, last, hlast, hleaf, hposition⟩ := hends
  obtain ⟨front, htokens⟩ := List.getLast?_eq_some_iff.mp hlast
  have hread := read_eq_of_complete (parse_eq_ok_iff_ofElements?.mp hreport).1
  rw [htokens] at hread
  have happend := read_eq_of_complete (parse_eq_ok_iff_ofElements?.mp hreport').1
  obtain ⟨t, us, htokens', halike⟩ := tokens_append hread hleaf hposition happend
  have hclosed := openNames_of_parse hreport
  have hclosed' := openNames_of_parse hreport'
  unfold topElements
  rw [htokens, List.map_append, List.map_singleton] at hclosed ⊢
  rw [htokens', List.map_append, List.map_cons, List.append_cons] at hclosed' ⊢
  generalize front.map Located.token = front at hclosed hclosed' ⊢
  -- the tag at the end closes as many elements in the longer document
  have hfront : openNames [] (front ++ [t.token]) = some [] := by
    rw [openNames_append] at hclosed'
    obtain ⟨names, hnames, -⟩ := Option.bind_eq_some_iff.mp hclosed'
    have hdepth : openElements (front ++ [t.token]) = openElements (front ++ [last.token]) := by
      simp only [openElements, List.foldl_append, List.foldl_cons, List.foldl_nil,
        halike.depthAfter]
    have hzero := (openElements_eq_zero_iff hclosed).mpr rfl
    rw [hnames, (openElements_eq_zero_iff hnames).mp (hdepth.trans hzero)]
  have hsame : Forest.ofTokens (front ++ [t.token]) = Forest.ofTokens (front ++ [last.token]) := by
    unfold Forest.ofTokens
    rw [levels_append_alike halike]
  rw [ofTokens_append hfront hclosed', Forest.elements_append, hsame]
  exact ⟨_, rfl⟩

/-! ### What later elements add -/

theorem ofElements?_cons (root : Element) (later : List Element) :
    Report.ofElements? (root :: later) =
      (Report.ofElements? [root]).bind fun report => later.foldlM addTestCases? report := by
  rw [Report.ofElements?, Report.ofElements?]
  cases Builder.rootReport? root.tag with
  | none => rfl
  | some report =>
    simp only [Option.bind_eq_bind, Option.bind_some, List.foldlM_cons, List.foldlM_nil,
      Option.pure_def, Option.bind_fun_some]

theorem testCases_foldlM_addTestCases? {later : List Element} {report last : Report}
    (h : later.foldlM addTestCases? report = some last) :
    last.testCases = report.testCases + (later.flatMap testCasesIn).length := by
  rw [foldlM_addTestCases?_eq] at h
  obtain ⟨-, results, hresults, rfl⟩ := foldlM_addTestCase?_eq_some_iff.mp h
  have hlength : (later.flatMap testCasesIn).length = results.length := by
    simpa using congrArg List.length hresults
  rw [foldl_add, hlength]

theorem foldlM_addTestCases?_of_testCasesIn {later : List Element}
    (h : ∀ e ∈ later, testCasesIn e = []) (report : Report) :
    later.foldlM addTestCases? report = some report := by
  rw [foldlM_addTestCases?_eq, List.flatMap_eq_nil_iff.mpr h]
  rfl

/-- Elements leave a report as it is exactly when no test case is directly inside them. -/
theorem foldlM_addTestCases?_eq_self_iff {later : List Element} {report last : Report}
    (h : later.foldlM addTestCases? report = some last) :
    last = report ↔ ∀ e ∈ later, testCasesIn e = [] := by
  constructor
  · rintro rfl
    have hcount := testCases_foldlM_addTestCases? h
    have hnil : later.flatMap testCasesIn = [] := by
      apply List.eq_nil_of_length_eq_zero
      omega
    exact List.flatMap_eq_nil_iff.mp hnil
  · intro hnone
    rw [foldlM_addTestCases?_of_testCasesIn hnone] at h
    exact (Option.some.inj h).symm

/-- When more is written behind a root and the document still has a report, the report is
the same exactly when no element behind the root has a test case directly inside it. -/
theorem parse_append {document more : List Char} {report report' : Report}
    (hends : EndsAtRoot document) (h : Report.parse document = .ok report)
    (h' : Report.parse (document ++ more) = .ok report') :
    ∃ later, topElements (document ++ more) = topElements document ++ later ∧
      (report' = report ↔ ∀ e ∈ later, testCasesIn e = []) := by
  obtain ⟨later, hlater⟩ := exists_topElements_append hends h h'
  obtain ⟨root, hroot⟩ := List.length_eq_one_iff.mp hends.1
  have hreport := (parse_eq_ok_iff_ofElements?.mp h).2.2
  have hreport' := (parse_eq_ok_iff_ofElements?.mp h').2.2
  rw [hroot] at hreport
  rw [hlater, hroot, List.singleton_append, ofElements?_cons, hreport, Option.bind_some] at hreport'
  exact ⟨later, hlater, foldlM_addTestCases?_eq_self_iff hreport'⟩

/-- A comment and an element without test cases change nothing. -/
theorem parse_append_blank : EndsAtRoot "<r/>".toList ∧ ∃ report report' : Report,
    Report.parse "<r/>".toList = .ok report ∧
      Report.parse ("<r/>".toList ++ "<!--a--><x/>".toList) = .ok report' ∧
        ∃ later, topElements ("<r/>".toList ++ "<!--a--><x/>".toList) =
          topElements "<r/>".toList ++ later ∧
            (report' = report ↔ ∀ e ∈ later, testCasesIn e = []) := by
  have hends : EndsAtRoot "<r/>".toList := by decide +kernel
  have h : (Report.parse "<r/>".toList).toOption = some ⟨none, none, none, 0, 0, ∅⟩ := by
    decide +kernel
  have h' : (Report.parse ("<r/>".toList ++ "<!--a--><x/>".toList)).toOption =
      some ⟨none, none, none, 0, 0, ∅⟩ := by
    decide +kernel
  rw [toOption_eq_some_iff] at h h'
  exact ⟨hends, _, _, h, h', parse_append hends h h'⟩

/-- A test case inside a later element is counted like those of the root. -/
theorem parse_append_counts : EndsAtRoot "<testsuite/>".toList ∧ ∃ report report' : Report,
    Report.parse "<testsuite/>".toList = .ok report ∧
      Report.parse ("<testsuite/>".toList ++ "<x><testcase name=\"a.b.c\"/></x>".toList) =
        .ok report' ∧ report.testCases = 0 ∧ report'.testCases = 1 ∧ report' ≠ report := by
  have h : (Report.parse "<testsuite/>".toList).toOption.map Report.testCases = some 0 := by
    decide +kernel
  have h' : (Report.parse ("<testsuite/>".toList ++
      "<x><testcase name=\"a.b.c\"/></x>".toList)).toOption.map Report.testCases = some 1 := by
    decide +kernel
  obtain ⟨report, hreport, hzero⟩ := Option.map_eq_some_iff.mp h
  obtain ⟨report', hreport', hone⟩ := Option.map_eq_some_iff.mp h'
  rw [toOption_eq_some_iff] at hreport hreport'
  refine ⟨by decide +kernel, report, report', hreport, hreport', hzero, hone, ?_⟩
  rintro rfl
  omega

end Reports
end FirmwareTests
