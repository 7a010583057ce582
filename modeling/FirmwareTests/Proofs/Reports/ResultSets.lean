import Mathlib.Data.List.Nodup
import FirmwareTests.Proofs.Reports.NameMaps
import FirmwareTests.Reports.ResultSet

/-!
# Reachable result sets

Inserting and merging never leave a suite without a case or a case without an
assertion behind. A set of that kind is known by its look-ups, whatever was done to
make it, and it is empty only when there is nothing to count.
-/

namespace FirmwareTests
namespace Reports

/-! ### Counting -/

namespace Tally

theorem foldl_add (os : List Outcome) (t : Tally) : os.foldl add t =
    ⟨t.total + os.length, t.failures + (os.map Outcome.isPassed).count false⟩ := by
  induction os generalizing t with
  | nil => rfl
  | cons o os ih =>
    rw [List.foldl_cons, ih]
    cases o <;> simp [add, Outcome.isPassed] <;> omega

theorem ofOutcomes_eq (os : List Outcome) :
    ofOutcomes os = ⟨os.length, (os.map Outcome.isPassed).count false⟩ := by
  rw [ofOutcomes, foldl_add]
  simp [zero]

theorem failures_ofOutcomes_le (os : List Outcome) :
    (ofOutcomes os).failures ≤ (ofOutcomes os).total := by
  rw [ofOutcomes_eq]
  simpa using (os.map Outcome.isPassed).count_le_length (a := false)

theorem passed?_ofOutcomes (os : List Outcome) :
    (ofOutcomes os).passed? = some (os.countP Outcome.isPassed) := by
  have hfailed : (os.map Outcome.isPassed).count false =
      os.countP fun o => decide ¬o.isPassed = true := by
    rw [List.count, List.countP_map]
    congr 1
    funext o
    cases h : o.isPassed <;> simp [h]
  have hcount := List.length_eq_countP_add_countP Outcome.isPassed (l := os)
  refine (if_pos (failures_ofOutcomes_le os)).trans (congrArg some ?_)
  simp only [ofOutcomes_eq, hfailed]
  omega

end Tally

/-! ### Looking up -/

/-- Whether a suite has a case, and each of its cases an assertion. -/
structure SuiteResults.Populated (cases : SuiteResults) : Prop where
  ne_empty : cases ≠ ∅
  assertions : ∀ testCase assertions, cases.find? testCase = some assertions → assertions ≠ ∅

namespace SuiteResults

/-- The outcome of a test of a suite, by case and assertion. -/
def look (cases : SuiteResults) (name : String × String) : Option Outcome :=
  (cases.find? name.1).bind fun assertions => assertions.find? name.2

theorem Populated.exists_look {cases : SuiteResults} (h : cases.Populated) :
    ∃ name outcome, cases.look name = some outcome := by
  obtain ⟨testCase, assertions, hcase⟩ := NameMap.ne_empty_iff.1 h.ne_empty
  obtain ⟨assertion, outcome, hfind⟩ :=
    NameMap.ne_empty_iff.1 (h.assertions testCase assertions hcase)
  refine ⟨(testCase, assertion), outcome, ?_⟩
  rw [look, hcase]
  exact hfind

theorem Populated.ext {cases others : SuiteResults} (h : cases.Populated)
    (h' : others.Populated) (hlook : ∀ name, cases.look name = others.look name) :
    cases = others := by
  refine NameMap.ext_find?_bind NameMap.find? (fun m => m ≠ ∅) (fun m => NameMap.ne_empty_iff.1)
    (fun m n _ _ => NameMap.ext_find?) h.assertions h'.assertions ?_
  intro testCase assertion
  exact hlook (testCase, assertion)

def record (cases? : Option SuiteResults) (testCase assertion : String) (outcome : Outcome) :
    SuiteResults :=
  (cases?.getD ∅).update testCase fun assertions? =>
    (assertions?.getD ∅).insert assertion outcome

theorem look_record (cases? : Option SuiteResults) (testCase assertion : String)
    (outcome : Outcome) (name : String × String) :
    (record cases? testCase assertion outcome).look name =
      if name = (testCase, assertion) then some outcome
      else cases?.bind fun cases => cases.look name := by
  obtain ⟨testCase', assertion'⟩ := name
  rw [look, record, NameMap.find?_update]
  by_cases hcase : testCase' = testCase
  · cases cases? with
    | none => simp [hcase, NameMap.find?_insert]
    | some cases => cases hfind : cases.find? testCase <;>
        simp [hcase, hfind, look, NameMap.find?_insert]
  · cases cases? <;> simp [hcase, look]

theorem populated_record {cases? : Option SuiteResults}
    (h : ∀ cases, cases? = some cases → cases.Populated) (testCase assertion : String)
    (outcome : Outcome) : (record cases? testCase assertion outcome).Populated := by
  constructor
  · exact NameMap.ne_empty_iff.2 ⟨testCase, _, NameMap.find?_update_self ..⟩
  · intro other assertions hfind
    rw [record, NameMap.find?_update] at hfind
    split at hfind
    · cases hfind
      exact NameMap.ne_empty_iff.2 ⟨assertion, outcome, NameMap.find?_insert_self ..⟩
    · cases cases? with
      | none => cases hfind
      | some cases => exact (h cases rfl).assertions other assertions hfind

end SuiteResults

namespace ResultSet

variable {r s : ResultSet}

theorem find?_eq_look (r : ResultSet) (name : TestName) :
    r.find? name = (r.suites.find? name.suite).bind fun cases =>
      cases.look (name.testCase, name.assertion) := rfl

@[simp] theorem find?_empty (name : TestName) : (∅ : ResultSet).find? name = none := rfl

theorem insert_eq_record (r : ResultSet) (name : TestName) (outcome : Outcome) :
    r.insert name outcome = ⟨r.suites.update name.suite fun cases? =>
      SuiteResults.record cases? name.testCase name.assertion outcome⟩ := rfl

theorem find?_insert (r : ResultSet) (name other : TestName) (outcome : Outcome) :
    (r.insert name outcome).find? other =
      if other = name then some outcome else r.find? other := by
  obtain ⟨suite, testCase, assertion⟩ := name
  obtain ⟨suite', testCase', assertion'⟩ := other
  rw [find?_eq_look, insert_eq_record, NameMap.find?_update]
  by_cases hsuite : suite' = suite
  · simp [hsuite, SuiteResults.look_record, find?_eq_look]
  · simp [hsuite, find?_eq_look]

/-- Of outcomes that are recorded in a row the last one of a name counts. -/
theorem find?_foldl_insert (results : List (TestName × Outcome)) (r : ResultSet)
    (name : TestName) :
    (results.foldl (fun set result => set.insert result.1 result.2) r).find? name =
      ((results.reverse.find? fun result => result.1 == name).map Prod.snd).or
        (r.find? name) := by
  induction results generalizing r with
  | nil => rfl
  | cons result results ih =>
    rw [List.foldl_cons, ih, find?_insert, List.reverse_cons, List.find?_append]
    cases results.reverse.find? fun result => result.1 == name with
    | some last => rfl
    | none =>
      by_cases hname : name = result.1
      · simp [hname]
      · simp [hname, Ne.symm hname]

/-! ### Listing -/

theorem mem_toList_iff {name : TestName} {outcome : Outcome} :
    (name, outcome) ∈ r.toList ↔ r.find? name = some outcome := by
  obtain ⟨suite, testCase, assertion⟩ := name
  simp only [toList, find?, List.mem_flatMap, List.mem_map, Prod.mk.injEq, TestName.mk.injEq,
    Prod.exists, Option.bind_eq_bind, Option.bind_eq_some_iff, NameMap.find?_eq_some_iff]
  constructor
  · rintro ⟨_, cases, hsuite, _, assertions, hcase, _, _, hassertion, ⟨rfl, rfl, rfl⟩, rfl⟩
    exact ⟨cases, hsuite, assertions, hcase, hassertion⟩
  · rintro ⟨cases, hsuite, assertions, hcase, hassertion⟩
    exact ⟨suite, cases, hsuite, testCase, assertions, hcase, assertion, outcome, hassertion,
      ⟨rfl, rfl, rfl⟩, rfl⟩

theorem nodup_names_toList (r : ResultSet) : (r.toList.map Prod.fst).Nodup := by
  have hnames : r.toList.map Prod.fst = r.suites.entries.flatMap fun suite =>
      suite.2.entries.flatMap fun testCase =>
        testCase.2.entries.map fun assertion => ⟨suite.1, testCase.1, assertion.1⟩ := by
    simp [toList, List.map_flatMap, Function.comp_def]
  rw [hnames]
  refine List.nodup_flatMap.2 ⟨fun suite _ => List.nodup_flatMap.2 ⟨fun testCase _ => ?_, ?_⟩, ?_⟩
  · refine List.pairwise_map.2 (testCase.2.ascending.imp fun hlt heq => ?_)
    exact ne_of_lt hlt (TestName.mk.inj heq).2.2
  · refine suite.2.ascending.imp fun hlt name hleft hright => ?_
    obtain ⟨_, _, rfl⟩ := List.mem_map.1 hleft
    obtain ⟨_, _, heq⟩ := List.mem_map.1 hright
    exact ne_of_gt hlt (TestName.mk.inj heq).2.1
  · refine r.suites.ascending.imp fun hlt name hleft hright => ?_
    obtain ⟨_, _, hleft⟩ := List.mem_flatMap.1 hleft
    obtain ⟨_, _, rfl⟩ := List.mem_map.1 hleft
    obtain ⟨_, _, hright⟩ := List.mem_flatMap.1 hright
    obtain ⟨_, _, heq⟩ := List.mem_map.1 hright
    exact ne_of_gt hlt (TestName.mk.inj heq).1

theorem tally_eq (r : ResultSet) : r.tally =
    ⟨r.toList.length, (r.toList.map fun e => e.2.isPassed).count false⟩ := by
  rw [tally, Tally.ofOutcomes_eq, List.length_map, List.map_map]
  rfl

/-! ### Sets without gaps -/

/-- Whether every suite of a set has a case, and every case an assertion. -/
def Populated (r : ResultSet) : Prop :=
  ∀ suite cases, r.suites.find? suite = some cases → cases.Populated

theorem populated_empty : Populated ∅ :=
  fun _ _ h => nomatch h

theorem Populated.insert (h : r.Populated) (name : TestName) (outcome : Outcome) :
    (r.insert name outcome).Populated := by
  intro suite cases hfind
  rw [insert_eq_record, NameMap.find?_update] at hfind
  split at hfind
  · cases hfind
    exact SuiteResults.populated_record (fun cases hcases => h name.suite cases hcases) ..
  · exact h suite cases hfind

theorem Populated.merge (h : r.Populated) (h' : s.Populated) : (r.merge s).Populated := by
  intro suite cases hfind
  rw [ResultSet.merge, NameMap.find?_union, Option.or_eq_some_iff] at hfind
  rcases hfind with hfind | ⟨-, hfind⟩
  · exact h' suite cases hfind
  · exact h suite cases hfind

theorem Populated.ext (h : r.Populated) (h' : s.Populated)
    (hfind : ∀ name, r.find? name = s.find? name) : r = s := by
  have hsuites : r.suites = s.suites := by
    refine NameMap.ext_find?_bind SuiteResults.look SuiteResults.Populated
      (fun _ => SuiteResults.Populated.exists_look) (fun _ _ => SuiteResults.Populated.ext)
      h h' ?_
    intro suite name
    exact hfind ⟨suite, name.1, name.2⟩
  cases r
  cases s
  cases hsuites
  rfl

theorem Populated.toList_eq_nil_iff (h : r.Populated) : r.toList = [] ↔ r.suites = ∅ := by
  constructor
  · intro hnil
    by_contra hne
    obtain ⟨suite, cases, hsuite⟩ := NameMap.ne_empty_iff.1 hne
    obtain ⟨name, outcome, hlook⟩ := (h suite cases hsuite).exists_look
    have hfind : r.find? ⟨suite, name.1, name.2⟩ = some outcome := by
      rw [find?_eq_look, hsuite]
      exact hlook
    have hmem := mem_toList_iff.2 hfind
    rw [hnil] at hmem
    cases hmem
  · intro hempty
    rw [toList, hempty]
    rfl

/-! ### Reachable sets -/

/-- The sets that inserting and merging make out of sets without results. -/
inductive Reachable : ResultSet → Prop where
  | empty : Reachable ∅
  | insert {r : ResultSet} (name : TestName) (outcome : Outcome) (h : Reachable r) :
      Reachable (r.insert name outcome)
  | merge {r s : ResultSet} (h : Reachable r) (h' : Reachable s) : Reachable (r.merge s)

theorem Reachable.populated (h : Reachable r) : r.Populated := by
  induction h with
  | empty => exact populated_empty
  | insert name outcome _ ih => exact ih.insert name outcome
  | merge _ _ ih ih' => exact ih.merge ih'

/-- What the levels of a set, its list of results and its tally have to do with each
other and with what is looked up. -/
structure WellFormed (r : ResultSet) : Prop where
  cases_ne_nil : ∀ suite ∈ r.suites.entries, suite.2.entries ≠ []
  assertions_ne_nil : ∀ suite ∈ r.suites.entries, ∀ testCase ∈ suite.2.entries,
    testCase.2.entries ≠ []
  suites_inByteOrder : r.suites.InByteOrder
  cases_inByteOrder : ∀ suite ∈ r.suites.entries, suite.2.InByteOrder
  assertions_inByteOrder : ∀ suite ∈ r.suites.entries, ∀ testCase ∈ suite.2.entries,
    testCase.2.InByteOrder
  listed_iff : ∀ name outcome, (name, outcome) ∈ r.toList ↔ r.find? name = some outcome
  listed_once : (r.toList.map Prod.fst).Nodup
  isEmpty_iff : r.isEmpty = true ↔ r.tally.total = 0
  failures_le : r.tally.failures ≤ r.tally.total
  passed?_eq : r.tally.passed? = some (r.toList.countP fun result => result.2.isPassed)

theorem Populated.wellFormed (h : r.Populated) : r.WellFormed where
  cases_ne_nil suite hsuite hnil := by
    have hne := (h suite.1 suite.2 (NameMap.find?_eq_some_iff.2 hsuite)).ne_empty
    exact hne (NameMap.isEmpty_eq_true_iff.1 (List.isEmpty_iff.2 hnil))
  assertions_ne_nil suite hsuite testCase hcase hnil := by
    have hne := (h suite.1 suite.2 (NameMap.find?_eq_some_iff.2 hsuite)).assertions
      testCase.1 testCase.2 (NameMap.find?_eq_some_iff.2 hcase)
    exact hne (NameMap.isEmpty_eq_true_iff.1 (List.isEmpty_iff.2 hnil))
  suites_inByteOrder := r.suites.inByteOrder
  cases_inByteOrder suite _ := suite.2.inByteOrder
  assertions_inByteOrder _ _ testCase _ := testCase.2.inByteOrder
  listed_iff _ _ := mem_toList_iff
  listed_once := r.nodup_names_toList
  isEmpty_iff := by
    rw [isEmpty, NameMap.isEmpty_eq_true_iff, ← h.toList_eq_nil_iff, tally_eq,
      List.length_eq_zero_iff]
  failures_le := Tally.failures_ofOutcomes_le _
  passed?_eq := by
    rw [tally, Tally.passed?_ofOutcomes, List.countP_map]
    rfl

/-- A set made by inserting and merging is well-formed, and is the same as another one
exactly when the outcomes are, whatever was done to make the two. -/
theorem reachable_wellFormed (h : Reachable r) :
    r.WellFormed ∧ ∀ s, Reachable s → (r = s ↔ ∀ name, r.find? name = s.find? name) := by
  refine ⟨h.populated.wellFormed, fun s h' => ⟨?_, h.populated.ext h'.populated⟩⟩
  rintro rfl name
  rfl

/-- A set with a suite that a merge has replaced, and the set without what was lost. -/
theorem reachable_wellFormed_merged :
    let left := ResultSet.merge
      ((insert ∅ ⟨"b", "x", "é"⟩ .passed).insert ⟨"a", "x", "z"⟩ (.failed "m"))
      (insert ∅ ⟨"b", "y", "q"⟩ .passed)
    let right := (insert ∅ ⟨"b", "y", "q"⟩ .passed).insert ⟨"a", "x", "z"⟩ (.failed "m")
    Reachable left ∧ Reachable right ∧ left = right ∧ left.WellFormed ∧
      ∀ name, left.find? name = right.find? name := by
  intro left right
  have hleft : Reachable left :=
    .merge (.insert _ _ (.insert _ _ .empty)) (.insert _ _ .empty)
  have hright : Reachable right := .insert _ _ (.insert _ _ .empty)
  have hsame : left = right := by decide +kernel
  obtain ⟨hwell, hiff⟩ := reachable_wellFormed hleft
  exact ⟨hleft, hright, hsame, hwell, (hiff right hright).1 hsame⟩

end ResultSet
end Reports
end FirmwareTests
