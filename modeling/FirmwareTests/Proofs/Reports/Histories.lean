import Mathlib.Algebra.BigOperators.Ring.Finset
import FirmwareTests.Proofs.Reports.ResultSets

/-!
# Histories of result sets

A result set is made by changes in a row. Inserting replaces the outcome of one test,
merging everything that is known about the suites of the other set, so a later change
hides an earlier one for some tests only. Of all the changes that concern a test the
last one decides, and when sets are only merged the last set that has a suite does.
-/

namespace FirmwareTests
namespace Reports

/-! ### Counting by suite -/

namespace NameMap

universe u

variable {α : Type u}

def names (m : NameMap α) : Finset String :=
  (m.entries.map Prod.fst).toFinset

theorem mem_names_iff {m : NameMap α} {name : String} :
    name ∈ m.names ↔ (m.find? name).isSome = true := by
  simp only [names, List.mem_toFinset, List.mem_map, Option.isSome_iff_exists,
    find?_eq_some_iff]
  constructor
  · rintro ⟨⟨_, value⟩, hmem, rfl⟩
    exact ⟨value, hmem⟩
  · rintro ⟨value, hmem⟩
    exact ⟨(name, value), hmem, rfl⟩

theorem sum_entries (m : NameMap α) (f : α → Nat) :
    (m.entries.map fun e => f e.2).sum = ∑ name ∈ m.names, (m.find? name).elim 0 f := by
  rw [names, List.sum_toFinset _ m.nodup_names, List.map_map]
  refine congrArg List.sum (List.map_congr_left fun e he => ?_)
  have hfind : m.find? e.1 = some e.2 := find?_eq_some_iff.2 he
  simp [hfind]

end NameMap

namespace SuiteResults

/-- The outcomes of a suite in the order of its cases and assertions. -/
def outcomes (cases : SuiteResults) : List Outcome :=
  cases.entries.flatMap fun testCase => testCase.2.values

def tally (cases : SuiteResults) : Tally :=
  .ofOutcomes cases.outcomes

end SuiteResults

namespace ResultSet

variable {r s t : ResultSet}

def hasSuite (r : ResultSet) (suite : String) : Bool :=
  (r.suites.find? suite).isSome

def suiteTally (r : ResultSet) (suite : String) : Tally :=
  (r.suites.find? suite).elim .zero SuiteResults.tally

theorem hasSuite_insert (r : ResultSet) (name : TestName) (outcome : Outcome) (suite : String) :
    (r.insert name outcome).hasSuite suite = (suite == name.suite || r.hasSuite suite) := by
  rw [hasSuite, insert_eq_record, NameMap.find?_update, hasSuite]
  by_cases hname : suite = name.suite <;> simp [hname]

theorem outcomes_toList (r : ResultSet) :
    r.toList.map Prod.snd = r.suites.entries.flatMap fun suite => suite.2.outcomes := by
  simp [toList, SuiteResults.outcomes, NameMap.values, List.map_flatMap, Function.comp_def]

/-- A count of outcomes is the sum of the counts of the suites. -/
theorem sum_suiteTally (r : ResultSet) (count : Tally → Nat) (part : Outcome → Nat)
    (hzero : count .zero = 0)
    (hcount : ∀ outcomes, count (.ofOutcomes outcomes) = (outcomes.map part).sum) :
    count r.tally = ∑ suite ∈ r.suites.names, count (r.suiteTally suite) := by
  have hsuite (suite : String) : count (r.suiteTally suite) =
      (r.suites.find? suite).elim 0 fun cases => count cases.tally := by
    rw [suiteTally]
    cases r.suites.find? suite with
    | none => exact hzero
    | some cases => rfl
  simp only [hsuite]
  rw [← NameMap.sum_entries, tally, hcount, outcomes_toList, List.map_flatMap,
    List.flatMap_def, List.sum_flatten, List.map_map]
  simp only [Function.comp_def, SuiteResults.tally, hcount]

theorem total_tally (r : ResultSet) :
    r.tally.total = ∑ suite ∈ r.suites.names, (r.suiteTally suite).total := by
  apply r.sum_suiteTally Tally.total fun _ => 1
  · rfl
  · intro outcomes
    simp [Tally.ofOutcomes_eq]

theorem failures_tally (r : ResultSet) :
    r.tally.failures = ∑ suite ∈ r.suites.names, (r.suiteTally suite).failures := by
  apply r.sum_suiteTally Tally.failures fun outcome => if outcome.isPassed then 0 else 1
  · rfl
  · intro outcomes
    simp only [Tally.ofOutcomes_eq]
    induction outcomes with
    | nil => rfl
    | cons outcome outcomes ih =>
      rw [List.map_cons, List.map_cons, List.sum_cons, List.count_cons, ih]
      cases outcome.isPassed <;> simp [Nat.add_comm]

/-! ### Histories -/

/-- What can be done to a set. -/
inductive Change where
  | insert (name : TestName) (outcome : Outcome)
  | merge (set : ResultSet)

namespace Change

def apply (r : ResultSet) : Change → ResultSet
  | .insert name outcome => r.insert name outcome
  | .merge set => r.merge set

/-- Whether a change settles the outcome of a test: it is put there, or the whole suite
is replaced. -/
def concerns (name : TestName) : Change → Bool
  | .insert other _ => other == name
  | .merge set => set.hasSuite name.suite

def outcome? (name : TestName) : Change → Option Outcome
  | .insert _ outcome => some outcome
  | .merge set => set.find? name

end Change

/-- The set that changes in a row make of the empty one. -/
def ofChanges (changes : List Change) : ResultSet :=
  changes.foldl Change.apply ∅

theorem find?_merge (r s : ResultSet) (name : TestName) :
    (r.merge s).find? name = if s.hasSuite name.suite then s.find? name else r.find? name := by
  rw [find?_eq_look, find?_eq_look, find?_eq_look, merge, NameMap.find?_union, hasSuite]
  cases s.suites.find? name.suite <;> simp

/-- One change decides about the tests it concerns and about no other. -/
theorem find?_apply (r : ResultSet) (change : Change) (name : TestName) :
    (change.apply r).find? name =
      if change.concerns name then change.outcome? name else r.find? name := by
  cases change with
  | insert other outcome =>
    rw [Change.apply, find?_insert]
    simp only [Change.concerns, Change.outcome?, beq_iff_eq, @eq_comm _ name]
  | merge set => exact find?_merge r set name

/-- The last of the changes that concern a test. -/
def lastChange? (changes : List Change) (name : TestName) : Option Change :=
  changes.reverse.find? fun change => change.concerns name

theorem lastChange?_concat (changes : List Change) (change : Change) (name : TestName) :
    lastChange? (changes ++ [change]) name =
      if change.concerns name then some change else lastChange? changes name := by
  rw [lastChange?, List.reverse_append, List.reverse_singleton, List.singleton_append,
    List.find?_cons, lastChange?]
  cases change.concerns name <;> rfl

/-- By induction from the end: the last change decides, or it does not concern the test
and those before it decide. -/
theorem find?_ofChanges (changes : List Change) (name : TestName) :
    (ofChanges changes).find? name =
      (lastChange? changes name).bind fun change => change.outcome? name := by
  induction changes using List.reverseRecOn with
  | nil => rfl
  | append_singleton changes change ih =>
    rw [ofChanges, List.foldl_concat, find?_apply, lastChange?_concat, ← ofChanges, ih]
    split <;> rfl

/-! ### Merging in a row -/

theorem find?_suites_merge (r s : ResultSet) (suite : String) :
    (r.merge s).suites.find? suite = (s.suites.find? suite).or (r.suites.find? suite) :=
  NameMap.find?_union r.suites s.suites suite

theorem ext_suites (h : ∀ suite, r.suites.find? suite = s.suites.find? suite) : r = s :=
  congrArg mk (NameMap.ext_find? h)

theorem merge_assoc (r s t : ResultSet) : (r.merge s).merge t = r.merge (s.merge t) := by
  apply ext_suites
  intro suite
  simp [find?_suites_merge, Option.or_assoc]

theorem merge_self (r : ResultSet) : r.merge r = r := by
  apply ext_suites
  intro suite
  simp [find?_suites_merge]

theorem empty_merge (r : ResultSet) : merge ∅ r = r := by
  apply ext_suites
  intro suite
  rw [find?_suites_merge]
  exact Option.or_none

theorem merge_empty (r : ResultSet) : r.merge ∅ = r := by
  apply ext_suites
  intro suite
  rw [find?_suites_merge]
  exact Option.none_or

/-- The last of the sets that have a suite, and the empty set if there is none. -/
def lastWith (sets : List ResultSet) (suite : String) : ResultSet :=
  (sets.reverse.find? fun set => set.hasSuite suite).getD ∅

def suiteNames (sets : List ResultSet) : Finset String :=
  (sets.flatMap fun set => set.suites.entries.map Prod.fst).toFinset

theorem mem_suiteNames_iff {sets : List ResultSet} {suite : String} :
    suite ∈ suiteNames sets ↔ ∃ set ∈ sets, set.hasSuite suite = true := by
  have hnames (set : ResultSet) :
      suite ∈ set.suites.entries.map Prod.fst ↔ set.hasSuite suite = true := by
    rw [hasSuite, ← NameMap.mem_names_iff, NameMap.names, List.mem_toFinset]
  simp only [suiteNames, List.mem_toFinset, List.mem_flatMap, hnames]

theorem lastWith_concat (sets : List ResultSet) (set : ResultSet) (suite : String) :
    lastWith (sets ++ [set]) suite =
      if set.hasSuite suite then set else lastWith sets suite := by
  rw [lastWith, List.reverse_append, List.reverse_singleton, List.singleton_append,
    List.find?_cons, lastWith]
  cases set.hasSuite suite <;> rfl

theorem find?_suites_mergeAll (sets : List ResultSet) (suite : String) :
    (mergeAll sets).suites.find? suite = (lastWith sets suite).suites.find? suite := by
  induction sets using List.reverseRecOn with
  | nil => rfl
  | append_singleton sets set ih =>
    rw [mergeAll, List.foldl_concat, find?_suites_merge, ← mergeAll, ih, lastWith_concat,
      hasSuite]
    cases h : set.suites.find? suite <;> simp [h]

theorem lastWith_append_cons {earlier later : List ResultSet} {set : ResultSet} {suite : String}
    (h : set.hasSuite suite = true → ∃ other ∈ later, other.hasSuite suite = true) :
    lastWith (earlier ++ set :: later) suite = lastWith (earlier ++ later) suite := by
  simp only [lastWith, List.reverse_append, List.reverse_cons, List.append_assoc,
    List.find?_append, List.find?_singleton]
  cases hlater : later.reverse.find? fun other => other.hasSuite suite with
  | some last => rfl
  | none =>
    have hset : set.hasSuite suite = false := by
      by_contra hhas
      obtain ⟨other, hmem, hother⟩ := h (by simpa using hhas)
      exact List.find?_eq_none.1 hlater other (List.mem_reverse.2 hmem) hother
    simp [hset]

theorem lastWith_eq {earlier later : List ResultSet} {set : ResultSet} {suite : String}
    (hset : set.hasSuite suite = true) (hlater : ∀ other ∈ later, other.hasSuite suite = false) :
    lastWith (earlier ++ set :: later) suite = set := by
  have hnone : later.reverse.find? (fun other => other.hasSuite suite) = none := by
    rw [List.find?_eq_none]
    intro other hother
    rw [hlater other (List.mem_reverse.1 hother)]
    exact Bool.false_ne_true
  simp only [lastWith, List.reverse_append, List.reverse_cons, List.append_assoc,
    List.find?_append, hnone, List.find?_singleton, hset]
  rfl

/-- A set that has each suite as the last of the sets with that suite has it, and no suite
that none of the sets has. -/
structure TakesLast (sets : List ResultSet) (merged : ResultSet) : Prop where
  last : ∀ earlier set later suite, sets = earlier ++ set :: later →
    set.hasSuite suite = true → (∀ other ∈ later, other.hasSuite suite = false) →
      merged.suites.find? suite = set.suites.find? suite
  absent : ∀ suite, (∀ set ∈ sets, set.hasSuite suite = false) →
    merged.suites.find? suite = none

theorem takesLast_mergeAll (sets : List ResultSet) : TakesLast sets (mergeAll sets) where
  last earlier set later suite hsets hset hlater := by
    rw [find?_suites_mergeAll, hsets, lastWith_eq hset hlater]
  absent suite hnone := by
    have hlast : sets.reverse.find? (fun set => set.hasSuite suite) = none := by
      rw [List.find?_eq_none]
      intro set hset
      rw [hnone set (List.mem_reverse.1 hset)]
      exact Bool.false_ne_true
    rw [find?_suites_mergeAll, lastWith, hlast]
    rfl

theorem TakesLast.unique {sets : List ResultSet} {r s : ResultSet} (hr : TakesLast sets r)
    (hs : TakesLast sets s) : r = s := by
  apply ext_suites
  intro suite
  cases hlast : sets.reverse.find? fun set => set.hasSuite suite with
  | none =>
    have hnone : ∀ set ∈ sets, set.hasSuite suite = false := by
      intro set hset
      rw [List.find?_eq_none] at hlast
      exact Bool.eq_false_of_not_eq_true (hlast set (List.mem_reverse.2 hset))
    rw [hr.absent suite hnone, hs.absent suite hnone]
  | some set =>
    obtain ⟨hset, later, earlier, hsets, hlater⟩ := List.find?_eq_some_iff_append.1 hlast
    have hsplit : sets = earlier.reverse ++ set :: later.reverse := by
      rw [← List.reverse_reverse sets, hsets, List.reverse_append, List.reverse_cons,
        List.append_assoc]
      rfl
    have hnot : ∀ other ∈ later.reverse, other.hasSuite suite = false := by
      intro other hother
      exact Bool.eq_false_iff.2 (by simpa using hlater other (List.mem_reverse.1 hother))
    rw [hr.last _ set _ suite hsplit hset hnot, hs.last _ set _ suite hsplit hset hnot]

/-- A set all of whose suites are in later sets leaves no trace. -/
theorem mergeAll_append_cons {earlier later : List ResultSet} {set : ResultSet}
    (h : ∀ suite, set.hasSuite suite = true → ∃ other ∈ later, other.hasSuite suite = true) :
    mergeAll (earlier ++ set :: later) = mergeAll (earlier ++ later) := by
  apply ext_suites
  intro suite
  rw [find?_suites_mergeAll, find?_suites_mergeAll, lastWith_append_cons (h suite)]

theorem suiteTally_mergeAll (sets : List ResultSet) (suite : String) :
    (mergeAll sets).suiteTally suite = (lastWith sets suite).suiteTally suite := by
  rw [suiteTally, find?_suites_mergeAll, suiteTally]

theorem names_mergeAll (sets : List ResultSet) :
    (mergeAll sets).suites.names = suiteNames sets := by
  ext suite
  rw [NameMap.mem_names_iff, mem_suiteNames_iff, find?_suites_mergeAll, lastWith]
  cases hlast : sets.reverse.find? fun set => set.hasSuite suite with
  | none =>
    have hnone := List.find?_eq_none.1 hlast
    simp only [List.mem_reverse] at hnone
    simp only [Option.getD_none]
    constructor
    · nofun
    · rintro ⟨set, hmem, hhas⟩
      exact absurd hhas (hnone set hmem)
  | some set =>
    have hmem := List.mem_reverse.1 (List.mem_of_find?_eq_some hlast)
    have hhas := List.find?_some hlast
    exact ⟨fun _ => ⟨set, hmem, hhas⟩, fun _ => hhas⟩

/-- What the merge of sets in a row has: each suite as the last set that has it knows
it, whole, and their counts. -/
structure LastSetWins (sets : List ResultSet) : Prop where
  suites : ∀ suite,
    (mergeAll sets).suites.find? suite = (lastWith sets suite).suites.find? suite
  drop : ∀ earlier set later, sets = earlier ++ set :: later →
    (∀ suite, set.hasSuite suite = true → ∃ other ∈ later, other.hasSuite suite = true) →
    mergeAll sets = mergeAll (earlier ++ later)
  total : (mergeAll sets).tally.total =
    ∑ suite ∈ suiteNames sets, ((lastWith sets suite).suiteTally suite).total
  failures : (mergeAll sets).tally.failures =
    ∑ suite ∈ suiteNames sets, ((lastWith sets suite).suiteTally suite).failures

theorem lastSetWins (sets : List ResultSet) : LastSetWins sets where
  suites := find?_suites_mergeAll sets
  drop earlier set later hsets h := by
    rw [hsets]
    exact mergeAll_append_cons h
  total := by
    rw [total_tally, names_mergeAll]
    exact Finset.sum_congr rfl fun suite _ => congrArg Tally.total (suiteTally_mergeAll sets suite)
  failures := by
    rw [failures_tally, names_mergeAll]
    exact Finset.sum_congr rfl fun suite _ =>
      congrArg Tally.failures (suiteTally_mergeAll sets suite)

/-- Of any changes in a row the last one that concerns a test decides about it, and of
sets merged in a row the last one that has a suite, whichever way the merges are
grouped. -/
theorem last_change_decides (changes : List Change) (sets : List ResultSet) :
    (∀ name, (ofChanges changes).find? name =
      (lastChange? changes name).bind fun change => change.outcome? name) ∧
    LastSetWins sets ∧
    (∀ r s t : ResultSet, (r.merge s).merge t = r.merge (s.merge t)) ∧
    (∀ r : ResultSet, r.merge r = r ∧ merge ∅ r = r ∧ r.merge ∅ = r) :=
  ⟨find?_ofChanges changes, lastSetWins sets, merge_assoc,
    fun r => ⟨merge_self r, empty_merge r, merge_empty r⟩⟩

/-- A merge hides an outcome that it says nothing about, and a set that comes before
another one of the same suite need not be merged. -/
theorem last_change_decides_hidden :
    let first := insert ∅ ⟨"s", "a", "x"⟩ .passed
    let second := insert ∅ ⟨"s", "b", "x"⟩ (.failed "m")
    let changes := [.insert ⟨"s", "a", "x"⟩ .passed, .merge second,
      .insert ⟨"t", "a", "x"⟩ .passed]
    lastChange? changes ⟨"s", "a", "x"⟩ = some (.merge second) ∧
      (ofChanges changes).find? ⟨"s", "a", "x"⟩ = none ∧
      mergeAll [first, second] = mergeAll [second] ∧
      (mergeAll [first, second]).tally = ⟨1, 1⟩ := by
  intro first second changes
  have hlast : lastChange? changes ⟨"s", "a", "x"⟩ = some (.merge second) := rfl
  have hsuite (suite : String) : first.hasSuite suite = second.hasSuite suite := by
    rw [hasSuite_insert, hasSuite_insert]
  obtain ⟨hchanges, hmerged, -⟩ := last_change_decides changes [first, second]
  refine ⟨hlast, ?_, ?_, by decide +kernel⟩
  · rw [hchanges, hlast]
    rfl
  · apply hmerged.drop [] first [second] rfl
    intro suite hhas
    exact ⟨second, List.mem_singleton.2 rfl, (hsuite suite).symm.trans hhas⟩

end ResultSet
end Reports
end FirmwareTests
