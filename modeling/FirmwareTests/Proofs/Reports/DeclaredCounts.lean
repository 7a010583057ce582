import FirmwareTests.Proofs.Reports.Counts
import FirmwareTests.Proofs.Text.Numerals

/-!
# Declared counts

The root of a document may declare how many tests there are and how many of them fail. A
value that is a numeral of 64 bits, between blanks, is a declared count; any other value
declares nothing, and is no error either. A report has a mismatch for each declared count
that is not the counted one, and no other.
-/

namespace FirmwareTests

namespace Markup

/-- Whether a tag has an attribute whose value, with its entities replaced, is as given. -/
def Tag.Carries (tag : Tag) (key : String) (value : List Char) : Prop :=
  ∃ a ∈ tag.attributes.attributes, a.key = key.toList ∧ unescape a.value = .ok value

/-- The value that is read under a key is that of the one attribute with the key. -/
theorem Tag.value?_eq_some_some_iff {tag : Tag} {key : String} {value : List Char} :
    tag.value? key = some (some value) ↔ tag.Carries key value := by
  unfold Tag.value? AttributeList.find?
  constructor
  · intro h
    cases hfind : tag.attributes.attributes.find? fun a => a.key == key.toList with
    | none =>
      rw [hfind] at h
      cases hfault : tag.attributes.fault <;> simp [hfault] at h
    | some a =>
      rw [hfind] at h
      have hkey : a.key = key.toList := by simpa using List.find?_some hfind
      obtain ⟨value', hvalue, heq⟩ := Option.map_eq_some_iff.mp h
      cases heq
      exact ⟨a, List.mem_of_find?_eq_some hfind, hkey, Reports.toOption_eq_some_iff.mp hvalue⟩
  · rintro ⟨a, ha, hkey, hvalue⟩
    have hfind : (tag.attributes.attributes.find? fun a => a.key == key.toList) = some a := by
      cases hfind : tag.attributes.attributes.find? fun a => a.key == key.toList with
      | none =>
        have hne := List.find?_eq_none.mp hfind a ha
        exact absurd (beq_iff_eq.mpr hkey) hne
      | some b =>
        have hb : b.key = key.toList := by simpa using List.find?_some hfind
        rw [List.inj_on_of_nodup_map tag.nodup_attributes (List.mem_of_find?_eq_some hfind) ha
          (hb.trans hkey.symm)]
    rw [hfind]
    simp [hvalue]

end Markup

namespace Reports

open Markup

/-- Whether a tag declares a count: the value under the key is, between blanks, a numeral
that writes the count, and the count fits a word of 64 bits. -/
def Declares (tag : Tag) (key : String) (count : Nat) : Prop :=
  ∃ value, tag.Carries key value ∧ Text.IsNumeral (Text.trim value) count ∧ count < 2 ^ 64

theorem declaredCount?_eq_some_iff {tag : Tag} {key : String} {value? : Option (List Char)}
    (hvalue : tag.value? key = some value?) (count : Nat) :
    declaredCount? value? = some count ↔ Declares tag key count := by
  rw [declaredCount?, Option.bind_eq_some_iff]
  constructor
  · rintro ⟨value, rfl, hcount⟩
    exact ⟨value, Tag.value?_eq_some_some_iff.mp hvalue, Text.count?_eq_some_iff.mp hcount⟩
  · rintro ⟨value, hcarries, hcount⟩
    rw [Tag.value?_eq_some_some_iff.mpr hcarries] at hvalue
    exact ⟨value, (Option.some.inj hvalue).symm, Text.count?_eq_some_iff.mpr hcount⟩

/-! ### Mismatches -/

section

variable (kind : Nat → Nat → Mismatch) (declared? : Option Nat) (observed : Nat)

theorem ofCounts_eq : Mismatch.ofCounts kind declared? observed =
    (declared?.filter (· ≠ observed)).toList.map (kind · observed) := by
  cases declared? with
  | none => rfl
  | some declared =>
    by_cases heq : declared = observed <;> simp [Mismatch.ofCounts, Option.filter, heq]

theorem ofCounts_eq_nil_iff : Mismatch.ofCounts kind declared? observed = [] ↔
    ∀ declared, declared? = some declared → declared = observed := by
  cases declared? <;> simp [Mismatch.ofCounts]

end

/-! ### Roots -/

def failedTestCases (document : List Char) : List Element :=
  (testCases document).filter fun testCase => failuresIn testCase ≠ []

theorem counts_of_parse {document : List Char} {report : Report}
    (h : Report.parse document = .ok report) :
    report.testCases = (testCases document).length ∧
      report.failedTestCases = (failedTestCases document).length := by
  obtain ⟨results, hresults, htestCases, hfailed, -⟩ := exists_results_of_parse h
  have hlength := congrArg List.length hresults
  rw [List.length_map, List.length_map] at hlength
  rw [htestCases, hfailed, countP_results hresults, hlength]
  exact ⟨rfl, rfl⟩

/-- A document like another but for the tag of its root, where the attributes that count
can be read. -/
structure SameButRoot (document other : List Char) : Prop where
  complete : (read other).ending = .complete
  closed : openElements ((read other).tokens.map Located.token) = 0
  elements : ∃ root tag later, topElements document = root :: later ∧
    topElements other = ⟨tag, root.content⟩ :: later ∧
      ∀ key ∈ ["tests", "failures", "name"], (tag.value? key).isSome

/-- The report of a document is made from its root, and by adding the results of its test
cases to that. -/
theorem ofElements?_cons_eq_some_iff {root : Element} {later : List Element} {report : Report} :
    Report.ofElements? (root :: later) = some report ↔
      ∃ start, ∃ results : List (TestName × Outcome), Builder.rootReport? root.tag = some start ∧
        (∀ testCase ∈ (root :: later).flatMap testCasesIn, ∀ failure ∈ failuresIn testCase,
          LegibleFailure failure) ∧
        ((root :: later).flatMap testCasesIn).map treeResult? = results.map some ∧
          report = results.foldl Report.add start := by
  rw [Report.ofElements?, Option.bind_eq_bind, Option.bind_eq_some_iff]
  simp only [foldlM_addTestCases?_eq, foldlM_addTestCase?_eq_some_iff]
  constructor
  · rintro ⟨start, hstart, hlegible, results, hresults, hreport⟩
    exact ⟨start, results, hstart, hlegible, hresults, hreport⟩
  · rintro ⟨start, results, hstart, hlegible, hresults, hreport⟩
    exact ⟨start, hstart, hlegible, results, hresults, hreport⟩

theorem ofElements?_of_sameBut {root : Element} {tag : Tag} {later : List Element}
    {report : Report} (h : Report.ofElements? (root :: later) = some report)
    (hreadable : ∀ key ∈ ["tests", "failures", "name"], (tag.value? key).isSome) :
    ∃ report', Report.ofElements? (⟨tag, root.content⟩ :: later) = some report' ∧
      report'.testCases = report.testCases ∧ report'.failedTestCases = report.failedTestCases ∧
        report'.results = report.results := by
  obtain ⟨start, results, hstart, hlegible, hresults, rfl⟩ := ofElements?_cons_eq_some_iff.mp h
  obtain ⟨_, _, _, -, -, -, rfl⟩ := rootReport?_eq_some_iff.mp hstart
  obtain ⟨tests, failures, name, hstart'⟩ := exists_rootReport? hreadable
  refine ⟨_, ofElements?_cons_eq_some_iff.mpr ⟨_, results, hstart', hlegible, hresults, rfl⟩, ?_⟩
  rw [foldl_add, foldl_add]
  exact ⟨rfl, rfl, rfl⟩

theorem SameButRoot.parse {document other : List Char} {report : Report}
    (h : SameButRoot document other) (hreport : Report.parse document = .ok report) :
    ∃ report', Report.parse other = .ok report' ∧ report'.testCases = report.testCases ∧
      report'.failedTestCases = report.failedTestCases ∧ report'.results = report.results := by
  obtain ⟨root, tag, later, hroot, hother, hreadable⟩ := h.elements
  obtain ⟨-, -, helements⟩ := parse_eq_ok_iff_ofElements?.mp hreport
  rw [hroot] at helements
  obtain ⟨report', helements', hsame⟩ := ofElements?_of_sameBut helements hreadable
  rw [← hother] at helements'
  exact ⟨report', parse_eq_ok_iff_ofElements?.mpr ⟨h.complete, h.closed, helements'⟩, hsame⟩

/-! ### Reports -/

/-- What a report has of the counts that its document declares. -/
structure HoldsCounts (document : List Char) (report : Report) : Prop where
  tests : ∀ count, report.declaredTests = some count ↔
    ∃ root ∈ (topElements document).head?, Declares root.tag "tests" count
  failures : ∀ count, report.declaredFailures = some count ↔
    ∃ root ∈ (topElements document).head?, Declares root.tag "failures" count
  /-- Only a declared count that is not the counted one is a mismatch. -/
  mismatches : report.mismatches =
    (report.declaredTests.filter (· ≠ (testCases document).length)).toList.map
        (.tests · (testCases document).length) ++
      (report.declaredFailures.filter (· ≠ (failedTestCases document).length)).toList.map
        (.failures · (failedTestCases document).length)
  mismatches_eq_nil_iff : report.mismatches = [] ↔
    (∀ declared, report.declaredTests = some declared →
      declared = (testCases document).length) ∧
    ∀ declared, report.declaredFailures = some declared →
      declared = (failedTestCases document).length
  /-- No value of a declared count is an error. -/
  parse_other : ∀ other, SameButRoot document other →
    ∃ report', Report.parse other = .ok report' ∧ report'.testCases = report.testCases ∧
      report'.failedTestCases = report.failedTestCases ∧ report'.results = report.results

theorem exists_root_of_parse {document : List Char} {report : Report}
    (h : Report.parse document = .ok report) : ∃ root ∈ (topElements document).head?,
      (∀ count, report.declaredTests = some count ↔ Declares root.tag "tests" count) ∧
        ∀ count, report.declaredFailures = some count ↔ Declares root.tag "failures" count := by
  obtain ⟨-, -, helements⟩ := parse_eq_ok_iff_ofElements?.mp h
  cases htop : topElements document with
  | nil =>
    rw [htop] at helements
    cases helements
  | cons root later =>
    rw [htop, ofElements?_cons_eq_some_iff] at helements
    obtain ⟨start, results, hstart, -, -, rfl⟩ := helements
    obtain ⟨tests, failures, name, htests, hfailures, -, rfl⟩ := rootReport?_eq_some_iff.mp hstart
    rw [foldl_add]
    exact ⟨root, rfl, declaredCount?_eq_some_iff htests, declaredCount?_eq_some_iff hfailures⟩

/-- A report has the counts that its root declares in numerals of 64 bits, and a mismatch
for each of them that is not the count of the document. -/
theorem parse_holdsCounts {document : List Char} {report : Report}
    (h : Report.parse document = .ok report) : HoldsCounts document report := by
  obtain ⟨htestCases, hfailed⟩ := counts_of_parse h
  obtain ⟨root, hroot, htests, hfailures⟩ := exists_root_of_parse h
  have hdeclares (key : String) (count : Nat) :
      (∃ root ∈ (topElements document).head?, Declares root.tag key count) ↔
        Declares root.tag key count := by
    rw [hroot]
    simp
  constructor
  · intro count
    rw [htests, hdeclares]
  · intro count
    rw [hfailures, hdeclares]
  · rw [Report.mismatches, ofCounts_eq, ofCounts_eq, htestCases, hfailed]
  · rw [Report.mismatches, List.append_eq_nil_iff, ofCounts_eq_nil_iff, ofCounts_eq_nil_iff,
      htestCases, hfailed]
  · exact fun other hother => hother.parse h

/-- A root whose number of tests is written with an entity and between blanks, and whose
number of failures is one too large for a word. -/
def declaredSample : List Char :=
  "<r tests=' +00&#50;\u00a0' failures='18446744073709551616'><testcase name='a.b.c'/></r>".toList

/-- Two tests are declared where there is one, and no failures. -/
theorem parse_holdsCounts_sample : ∃ report, Report.parse declaredSample = .ok report ∧
    report.declaredTests = some 2 ∧ report.declaredFailures = none ∧
      report.mismatches = [.tests 2 1] ∧ HoldsCounts declaredSample report := by
  have hsome : (Report.parse declaredSample).toOption = some
      ⟨none, some 2, none, 1, 0, .ofResults [(⟨"a", "b", "c"⟩, .passed)]⟩ := by
    decide +kernel
  have h := toOption_eq_some_iff.mp hsome
  exact ⟨_, h, rfl, rfl, rfl, parse_holdsCounts h⟩

end Reports
end FirmwareTests
