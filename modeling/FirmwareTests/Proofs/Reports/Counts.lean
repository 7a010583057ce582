import Mathlib.Data.Finset.Card
import Mathlib.Data.List.DropRight
import Mathlib.Data.List.Perm.Subperm
import FirmwareTests.Proofs.Reports.Writing

/-!
# Counts and results

A report counts its test cases as they come, and keeps one result for each name, the last.
So the counts of the results may fall behind, and they do exactly when a name comes twice.
What is kept has been read from the document: names without dots in their parts, and
messages without blanks around them.
-/

namespace FirmwareTests

/-! ### Trimmed texts -/

namespace Text

/-- Whether a text neither begins nor ends with a blank character. -/
structure Trimmed (cs : List Char) : Prop where
  first : ∀ c ∈ cs.head?, isBlank c = false
  last : ∀ c ∈ cs.getLast?, isBlank c = false

theorem trimmed_trim (cs : List Char) : Trimmed (trim cs) := by
  have hprefix : trim cs <+: cs.dropWhile isBlank := List.rdropWhile_prefix isBlank _
  constructor
  · intro c hc
    have hfirst := List.head?_dropWhile_not isBlank cs
    obtain ⟨rest, hrest⟩ := List.head?_eq_some_iff.mp hc
    obtain ⟨more, hmore⟩ := hprefix
    rw [← hmore, hrest] at hfirst
    exact hfirst
  · intro c hc
    have hlast := List.head?_dropWhile_not isBlank (cs.dropWhile isBlank).reverse
    rw [trim, dropEndWhile, List.getLast?_reverse] at hc
    rw [hc] at hlast
    exact hlast

end Text

namespace Reports

open Markup

theorem dotFree_of_parse {input : List Char} {name : TestName}
    (h : TestName.parse input = .ok name) : name.DotFree := by
  unfold TestName.parse at h
  split at h
  · next suite testCase assertion hsegments =>
    cases h
    have hpart {s : List Char} (hs : s ∈ [suite, testCase, assertion]) :
        '.' ∉ (String.ofList s).toList := by
      rw [← hsegments] at hs
      simpa using Text.notMem_of_mem_segments hs
    exact ⟨hpart (by simp), hpart (by simp), hpart (by simp)⟩
  · cases h

/-! ### Results in a row -/

theorem countP_add_countP (results : List (TestName × Outcome)) :
    results.length = (results.countP fun result => result.2.isPassed) +
      results.countP fun result => !result.2.isPassed := by
  rw [List.length_eq_countP_add_countP fun result => result.2.isPassed]
  congr 1
  apply List.countP_congr
  intro result _
  simp

namespace ResultSet

def ofResults (results : List (TestName × Outcome)) : ResultSet :=
  results.foldl (fun set result => set.insert result.1 result.2) ∅

variable (results : List (TestName × Outcome))

theorem find?_ofResults (name : TestName) : (ofResults results).find? name =
    (results.reverse.find? fun result => result.1 == name).map Prod.snd := by
  rw [ofResults, find?_foldl_insert, find?_empty, Option.or_none]

theorem populated_ofResults : (ofResults results).Populated := by
  apply List.foldlRecOn results _ populated_empty
  intro set hset result _
  exact hset.insert result.1 result.2

theorem toList_ofResults_subset : (ofResults results).toList ⊆ results := by
  rintro ⟨name, outcome⟩ h
  rw [mem_toList_iff, find?_ofResults] at h
  obtain ⟨result, hfind, rfl⟩ := Option.map_eq_some_iff.mp h
  have hname : result.1 = name := by simpa using List.find?_some hfind
  rw [← hname]
  exact List.mem_reverse.mp (List.mem_of_find?_eq_some hfind)

theorem mem_names_ofResults_iff (name : TestName) :
    name ∈ (ofResults results).toList.map Prod.fst ↔ name ∈ results.map Prod.fst := by
  constructor
  · exact fun h => List.map_subset Prod.fst (toList_ofResults_subset results) h
  · intro h
    obtain ⟨result, hresult, rfl⟩ := List.mem_map.mp h
    cases hfind : results.reverse.find? fun other => other.1 == result.1 with
    | none =>
      have hne := List.find?_eq_none.mp hfind result (List.mem_reverse.mpr hresult)
      simp at hne
    | some last =>
      have hlast : (ofResults results).find? result.1 = some last.2 := by
        rw [find?_ofResults, hfind]
        rfl
      exact List.mem_map.mpr ⟨_, mem_toList_iff.mpr hlast, rfl⟩

theorem countP_ofResults_le (p : TestName × Outcome → Bool) :
    (ofResults results).toList.countP p ≤ results.countP p :=
  ((nodup_names_toList _).of_map.subperm (toList_ofResults_subset results)).countP_le p

theorem total_ofResults :
    (ofResults results).tally.total = (results.map Prod.fst).toFinset.card := by
  have hnames : ((ofResults results).toList.map Prod.fst).toFinset =
      (results.map Prod.fst).toFinset := by
    ext name
    rw [List.mem_toFinset, List.mem_toFinset, mem_names_ofResults_iff]
  rw [tally_eq, ← hnames, List.toFinset_card_of_nodup (nodup_names_toList _), List.length_map]

theorem failures_ofResults : (ofResults results).tally.failures =
    (ofResults results).toList.countP fun result => !result.2.isPassed := by
  rw [tally_eq, List.count, List.countP_map]
  apply List.countP_congr
  intro result _
  simp

theorem failures_ofResults_le : (ofResults results).tally.failures ≤
    results.countP fun result => !result.2.isPassed := by
  rw [failures_ofResults]
  exact countP_ofResults_le results _

theorem passed_ofResults_le :
    (ofResults results).tally.total - (ofResults results).tally.failures ≤
      results.length - results.countP fun result => !result.2.isPassed := by
  have hkept := countP_add_countP (ofResults results).toList
  have hcame := countP_add_countP results
  have hle := countP_ofResults_le results fun result => result.2.isPassed
  have htotal : (ofResults results).tally.total = (ofResults results).toList.length :=
    congrArg Tally.total (tally_eq _)
  rw [failures_ofResults]
  omega

theorem total_ofResults_eq_length_iff :
    (ofResults results).tally.total = results.length ↔ (results.map Prod.fst).Nodup := by
  rw [total_ofResults, ← List.length_map Prod.fst]
  exact Multiset.toFinset_card_eq_card_iff_nodup (m := (results.map Prod.fst : Multiset TestName))

/-- A set whose names have no dots in their parts, at each of its levels. -/
structure DotFree (r : ResultSet) : Prop where
  suites : ∀ suite ∈ r.suites.entries, '.' ∉ suite.1.toList
  cases : ∀ suite ∈ r.suites.entries, ∀ testCase ∈ suite.2.entries, '.' ∉ testCase.1.toList
  assertions : ∀ suite ∈ r.suites.entries, ∀ testCase ∈ suite.2.entries,
    ∀ assertion ∈ testCase.2.entries, '.' ∉ assertion.1.toList

/-- In a set without gaps every name of a level belongs to a result. -/
theorem Populated.dotFree {r : ResultSet} (h : r.Populated)
    (hnames : ∀ name outcome, r.find? name = some outcome → name.DotFree) : r.DotFree := by
  have hlook {suite : String × SuiteResults} (hsuite : suite ∈ r.suites.entries)
      {name : String × String} {outcome : Outcome} (hfind : suite.2.look name = some outcome) :
      TestName.DotFree ⟨suite.1, name.1, name.2⟩ := by
    apply hnames _ outcome
    rw [find?_eq_look, NameMap.find?_eq_some_iff.mpr hsuite]
    exact hfind
  have hpopulated {suite : String × SuiteResults} (hsuite : suite ∈ r.suites.entries) :
      suite.2.Populated :=
    h suite.1 suite.2 (NameMap.find?_eq_some_iff.mpr hsuite)
  have hassertion {suite : String × SuiteResults} (hsuite : suite ∈ r.suites.entries)
      {testCase : String × CaseResults} (hcase : testCase ∈ suite.2.entries)
      {assertion : String} {outcome : Outcome}
      (hfind : testCase.2.find? assertion = some outcome) :
      TestName.DotFree ⟨suite.1, testCase.1, assertion⟩ := by
    have hfound : suite.2.look (testCase.1, assertion) = some outcome := by
      rw [SuiteResults.look, NameMap.find?_eq_some_iff.mpr hcase]
      exact hfind
    exact hlook hsuite hfound
  constructor
  · intro suite hsuite
    obtain ⟨name, outcome, hfind⟩ := (hpopulated hsuite).exists_look
    exact (hlook hsuite hfind).suite
  · intro suite hsuite testCase hcase
    have hne := (hpopulated hsuite).assertions testCase.1 testCase.2
      (NameMap.find?_eq_some_iff.mpr hcase)
    obtain ⟨assertion, outcome, hfind⟩ := NameMap.ne_empty_iff.mp hne
    exact (hassertion hsuite hcase hfind).testCase
  · intro suite hsuite testCase hcase assertion hmem
    exact (hassertion hsuite hcase (NameMap.find?_eq_some_iff.mpr hmem)).assertion

end ResultSet

/-! ### Test cases -/

def testCases (document : List Char) : List Element :=
  (topElements document).flatMap testCasesIn

/-- The names that are read from the test cases of a document, in order. -/
def testCaseNames (document : List Char) : List TestName :=
  (testCases document).filterMap fun testCase => Builder.caseName? testCase.tag

/-- A report is made of results in a row, one for each test case. -/
theorem exists_results_of_parse {document : List Char} {report : Report}
    (h : Report.parse document = .ok report) : ∃ results : List (TestName × Outcome),
      (testCases document).map treeResult? = results.map some ∧
        report.testCases = results.length ∧
          report.failedTestCases = (results.countP fun result => !result.2.isPassed) ∧
            report.results = .ofResults results := by
  obtain ⟨-, -, helements⟩ := parse_eq_ok_iff_ofElements?.mp h
  rw [testCases]
  cases htop : topElements document with
  | nil =>
    rw [htop] at helements
    cases helements
  | cons root later =>
    rw [htop, Report.ofElements?, Option.bind_eq_bind, Option.bind_eq_some_iff] at helements
    obtain ⟨start, hstart, hfold⟩ := helements
    obtain ⟨tests, failures, name, -, -, -, rfl⟩ := rootReport?_eq_some_iff.mp hstart
    rw [foldlM_addTestCases?_eq] at hfold
    obtain ⟨-, results, hresults, rfl⟩ := foldlM_addTestCase?_eq_some_iff.mp hfold
    refine ⟨results, hresults, ?_⟩
    rw [foldl_add]
    exact ⟨Nat.zero_add _, Nat.zero_add _, rfl⟩

section

variable {elements : List Element} {results : List (TestName × Outcome)}

theorem names_eq_of_treeResult? (h : elements.map treeResult? = results.map some) :
    elements.filterMap (fun testCase => Builder.caseName? testCase.tag) =
      results.map Prod.fst := by
  induction elements generalizing results with
  | nil =>
    cases results with
    | nil => rfl
    | cons => cases h
  | cons testCase elements ih =>
    cases results with
    | nil => cases h
    | cons result results =>
      obtain ⟨hresult, hresults⟩ := List.cons.inj h
      obtain ⟨name, hname, rfl⟩ := Option.map_eq_some_iff.mp hresult
      rw [List.filterMap_cons, hname, ih hresults]
      rfl

theorem dotFree_of_caseName? {tag : Tag} {name : TestName}
    (h : Builder.caseName? tag = some name) : name.DotFree := by
  obtain ⟨name?, -, h⟩ := Option.bind_eq_some_iff.mp h
  obtain ⟨input, -, h⟩ := Option.bind_eq_some_iff.mp h
  exact dotFree_of_parse (toOption_eq_some_iff.mp h)

/-- What a test case says: nothing but that it passed, or a message without blanks around. -/
theorem trimmed_treeOutcome (testCase : Element) :
    Text.Trimmed (treeOutcome testCase).message.toList := by
  unfold treeOutcome
  split
  · exact ⟨nofun, nofun⟩
  · rw [Outcome.message, String.toList_ofList]
    exact Text.trimmed_trim _

theorem of_mem_results (h : elements.map treeResult? = results.map some)
    {result : TestName × Outcome} (hresult : result ∈ results) :
    result.1.DotFree ∧ Text.Trimmed result.2.message.toList := by
  have hmem : some result ∈ elements.map treeResult? := by
    rw [h]
    exact List.mem_map_of_mem hresult
  obtain ⟨testCase, -, htestCase⟩ := List.mem_map.mp hmem
  obtain ⟨name, hname, rfl⟩ := Option.map_eq_some_iff.mp htestCase
  exact ⟨dotFree_of_caseName? hname, trimmed_treeOutcome testCase⟩

end

/-! ### Counts of test cases and of results -/

/-- What the counts and the results of a report have to do with each other and with the
document. -/
structure Consistent (document : List Char) (report : Report) : Prop where
  /-- There is a name for each test case. -/
  testCases : report.testCases = (testCaseNames document).length
  /-- There is a result for each name. -/
  total : report.results.tally.total = (testCaseNames document).toFinset.card
  failedTestCases_le : report.failedTestCases ≤ report.testCases
  failures_le_total : report.results.tally.failures ≤ report.results.tally.total
  /-- No more results than test cases fail, and no more pass. -/
  failures_le : report.results.tally.failures ≤ report.failedTestCases
  passed_le : report.results.tally.total - report.results.tally.failures ≤
    report.testCases - report.failedTestCases
  /-- All test cases are kept when no name comes twice. -/
  total_eq_iff : report.results.tally.total = report.testCases ↔ (testCaseNames document).Nodup
  failures_eq : (testCaseNames document).Nodup →
    report.results.tally.failures = report.failedTestCases
  dotFree : report.results.DotFree
  passed : ∀ name outcome, report.results.find? name = some outcome →
    outcome.isPassed = true → outcome.message = ""
  failed : ∀ name outcome, report.results.find? name = some outcome →
    outcome.isPassed = false → Text.Trimmed outcome.message.toList

/-- The counts and the results of a report are consistent. -/
theorem parse_consistent {document : List Char} {report : Report}
    (h : Report.parse document = .ok report) : Consistent document report := by
  obtain ⟨results, hresults, htestCases, hfailed, hset⟩ := exists_results_of_parse h
  have hnames : testCaseNames document = results.map Prod.fst := names_eq_of_treeResult? hresults
  have hfailed_le : report.failedTestCases ≤ report.testCases := by
    rw [hfailed, htestCases]
    exact List.countP_le_length
  have hfailures_le_total : report.results.tally.failures ≤ report.results.tally.total :=
    Tally.failures_ofOutcomes_le _
  have hfailures_le : report.results.tally.failures ≤ report.failedTestCases := by
    rw [hset, hfailed]
    exact ResultSet.failures_ofResults_le results
  have hpassed_le : report.results.tally.total - report.results.tally.failures ≤
      report.testCases - report.failedTestCases := by
    rw [hset, htestCases, hfailed]
    exact ResultSet.passed_ofResults_le results
  have htotal_eq : report.results.tally.total = report.testCases ↔
      (testCaseNames document).Nodup := by
    rw [hset, htestCases, hnames]
    exact ResultSet.total_ofResults_eq_length_iff results
  have hmem {name : TestName} {outcome : Outcome}
      (hfind : report.results.find? name = some outcome) :
      name.DotFree ∧ Text.Trimmed outcome.message.toList := by
    rw [hset] at hfind
    have hresult := ResultSet.toList_ofResults_subset results (ResultSet.mem_toList_iff.mpr hfind)
    exact of_mem_results hresults hresult
  constructor
  case testCases => rw [htestCases, hnames, List.length_map]
  case total => rw [hset, hnames, ResultSet.total_ofResults]
  case failedTestCases_le => exact hfailed_le
  case failures_le_total => exact hfailures_le_total
  case failures_le => exact hfailures_le
  case passed_le => exact hpassed_le
  case total_eq_iff => exact htotal_eq
  case failures_eq =>
    intro hnodup
    have hall := htotal_eq.mpr hnodup
    omega
  case dotFree =>
    have hpopulated : report.results.Populated := by
      rw [hset]
      exact ResultSet.populated_ofResults results
    apply hpopulated.dotFree
    intro name outcome hfind
    exact (hmem hfind).1
  case passed =>
    intro name outcome _ hpassed
    cases outcome with
    | passed => rfl
    | failed message => cases hpassed
  case failed =>
    intro name outcome hfind _
    exact (hmem hfind).2

/-- A name that fails first and passes later is counted twice, and kept once. -/
theorem parse_consistent_repeated : ∃ report,
    Report.parse ("<r><testcase name='s.c.a'><failure> m </failure></testcase>" ++
        "<testcase name='s.c.a'/></r>").toList = .ok report ∧
      report.testCases = 2 ∧ report.failedTestCases = 1 ∧ report.results.tally = ⟨1, 0⟩ ∧
        Consistent ("<r><testcase name='s.c.a'><failure> m </failure></testcase>" ++
          "<testcase name='s.c.a'/></r>").toList report := by
  have h : (Report.parse ("<r><testcase name='s.c.a'><failure> m </failure></testcase>" ++
      "<testcase name='s.c.a'/></r>").toList).toOption =
        some ⟨none, none, none, 2, 1, ResultSet.insert ∅ ⟨"s", "c", "a"⟩ .passed⟩ := by
    decide +kernel
  rw [toOption_eq_some_iff] at h
  exact ⟨_, h, rfl, rfl, by decide +kernel, parse_consistent h⟩

end Reports
end FirmwareTests
