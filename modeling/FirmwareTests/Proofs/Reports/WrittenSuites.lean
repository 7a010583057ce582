import FirmwareTests.Proofs.Reports.SuiteDocuments
import FirmwareTests.Proofs.Reports.Writing

/-!
# Suites as hosts write them

A host writes a suite with an escaped title, the counts that it declares, and a test case for
each assertion, with an escaped name and, if it has failed, a failure with an escaped text.
Which test cases its document has is told by their names alone.
-/

namespace FirmwareTests
namespace Reports

open Markup

/-- A suite as a host writes it: its title, the counts that it declares, and its test cases,
each with its name and with what its failure says if it has failed. -/
structure WrittenSuite where
  title : List Char
  tests : Option (List Char)
  failures : Option (List Char)
  cases : List (List Char × Option (List Char))

namespace WrittenSuite

def escapedAttribute (key : String) (value : List Char) : Attribute :=
  ⟨key.toList, escape value⟩

def attributes (s : WrittenSuite) : List Attribute :=
  escapedAttribute "name" s.title ::
    ((s.tests.map (escapedAttribute "tests")).toList ++
      (s.failures.map (escapedAttribute "failures")).toList)

def failureTokens : Option (List Char) → List Token
  | none => []
  | some text => elementTokens false "failure".toList [] (textTokens text)

def caseTokens (testCase : List Char × Option (List Char)) : List Token :=
  elementTokens false "testcase".toList [titleAttribute testCase.1] (failureTokens testCase.2)

def document (s : WrittenSuite) : List Char :=
  render (elementTokens false "testsuite".toList s.attributes (s.cases.flatMap caseTokens))

/-! ### The tree of a suite -/

def failureForest : Option (List Char) → Forest
  | none => .nil
  | some text => .element (.ofAttributes "failure".toList []) (.ofLeaves (textTokens text)) .nil

def caseElement (testCase : List Char × Option (List Char)) : Element where
  tag := .ofAttributes "testcase".toList [titleAttribute testCase.1]
  content := failureForest testCase.2

def caseForest : List (List Char × Option (List Char)) → Forest
  | [] => .nil
  | testCase :: cases =>
    .element (caseElement testCase).tag (caseElement testCase).content (caseForest cases)

def root (s : WrittenSuite) : Element where
  tag := .ofAttributes "testsuite".toList s.attributes
  content := caseForest s.cases

theorem grows_failureTokens (failure? : Option (List Char)) :
    Grows (failureTokens failure?) (failureForest failure?) := by
  cases failure? with
  | none => exact grows_nil
  | some text =>
    have htext : Grows (textTokens text) (.ofLeaves (textTokens text)) := by
      refine grows_ofLeaves ?_ (spelled_textTokens text)
      intro t ht
      rw [mem_textTokens ht]
      rfl
    have hgrows : Grows (elementTokens false "failure".toList [] (textTokens text) ++ []) _ :=
      Grows.elementTokens isElementName_failure nofun htext grows_nil
    rwa [List.append_nil] at hgrows

theorem grows_caseTokens (cases : List (List Char × Option (List Char))) :
    Grows (cases.flatMap caseTokens) (caseForest cases) := by
  induction cases with
  | nil => exact grows_nil
  | cons testCase cases ih =>
    refine Grows.elementTokens isElementName_testcase ?_ (grows_failureTokens testCase.2) ih
    exact List.forall_mem_singleton.mpr (legible_titleAttribute testCase.1)

theorem named_caseForest (cases : List (List Char × Option (List Char))) :
    (caseForest cases).named "testcase" = cases.map caseElement := by
  induction cases with
  | nil => rfl
  | cons testCase cases ih =>
    refine (Forest.named_element ?_).trans (congrArg (caseElement testCase :: ·) ih)
    exact Tag.name_ofAttributes isElementName_testcase.isSpace

theorem legibleFailure_caseElement (testCase : List Char × Option (List Char)) :
    ∀ failure ∈ failuresIn (caseElement testCase), LegibleFailure failure := by
  obtain ⟨name, failure?⟩ := testCase
  cases failure? with
  | none => exact nofun
  | some text =>
    have hfailures : failuresIn (caseElement (name, some text)) =
        [⟨.ofAttributes "failure".toList [], .ofLeaves (textTokens text)⟩] :=
      Forest.named_element (Tag.name_ofAttributes isElementName_failure.isSpace)
    rw [hfailures, List.forall_mem_singleton]
    intro raw hraw
    rw [Forest.leaves_ofLeaves] at hraw
    cases mem_textTokens hraw
    exact ⟨text, unescape_escape text⟩

/-! ### The attributes of the root -/

section

variable {s : WrittenSuite} {a : Attribute}

theorem mem_attributes (ha : a ∈ s.attributes) :
    ∃ key ∈ ["name", "tests", "failures"], ∃ value, a = escapedAttribute key value := by
  simp only [attributes, List.mem_cons, List.mem_append, Option.mem_toList,
    Option.map_eq_some_iff] at ha
  rcases ha with rfl | ⟨value, -, rfl⟩ | ⟨value, -, rfl⟩
  · exact ⟨_, by simp, _, rfl⟩
  · exact ⟨_, by simp, _, rfl⟩
  · exact ⟨_, by simp, _, rfl⟩

theorem legible_of_mem_attributes (ha : a ∈ s.attributes) : a.Legible := by
  obtain ⟨key, hkey, value, rfl⟩ := mem_attributes ha
  have hkeys : ∀ key ∈ ["name", "tests", "failures"],
      (∀ c ∈ key.toList, isQuote c = false) ∧ '>' ∉ key.toList := by
    simp [isQuote]
  exact ⟨⟨(hkeys key hkey).1, quote_notMem_escape value⟩, (hkeys key hkey).2⟩

theorem attributes_root (s : WrittenSuite) : s.root.tag.attributes = ⟨s.attributes, none⟩ := by
  refine Tag.attributes_ofAttributes isElementName_testsuite.isSpace ?_ ?_ ?_
  · intro a ha
    obtain ⟨key, hkey, value, rfl⟩ := mem_attributes ha
    have hkeys : ∀ key ∈ ["name", "tests", "failures"], IsKey key.toList := by
      simp [IsKey, endsKey, isSpace]
    exact hkeys key hkey
  · exact fun a ha => (legible_of_mem_attributes ha).plain.2
  · obtain ⟨title, tests, failures, cases⟩ := s
    cases tests <;> cases failures <;> simp [attributes, escapedAttribute]

theorem isSome_value?_root (s : WrittenSuite) (key : String) :
    (s.root.tag.value? key).isSome = true := by
  rw [value?_eq_of_attributes s.attributes_root]
  cases hfind : s.attributes.find? fun a => a.key == key.toList with
  | none => rfl
  | some a =>
    obtain ⟨_, -, value, rfl⟩ := mem_attributes (List.mem_of_find?_eq_some hfind)
    simp [escapedAttribute, unescape_escape]

end

/-! ### Suites and their documents -/

theorem legibleSuite_root (s : WrittenSuite) : LegibleSuite (s.cases.map Prod.fst) s.root := by
  have htestCases : testCasesIn s.root = s.cases.map caseElement := named_caseForest s.cases
  constructor
  case name => exact Tag.name_ofAttributes isElementName_testsuite.isSpace
  case fault => rw [s.attributes_root]
  case plain =>
    rw [s.attributes_root]
    exact fun a ha => (legible_of_mem_attributes ha).plain
  case attributes => exact fun key _ => s.isSome_value?_root key
  case names =>
    rw [htestCases, List.map_map, List.map_map]
    exact List.map_congr_left fun testCase _ => value?_title isElementName_testcase testCase.1
  case texts =>
    intro testCase htestCase
    rw [htestCases] at htestCase
    obtain ⟨testCase, -, rfl⟩ := List.mem_map.mp htestCase
    exact legibleFailure_caseElement testCase

/-- A written suite is one of the test cases that it names, whatever counts it declares and
whichever of them fail. -/
theorem suiteDocument (s : WrittenSuite) : SuiteDocument (s.cases.map Prod.fst) s.document := by
  have hgrows := Grows.element isElementName_testsuite
    (fun a ha => legible_of_mem_attributes (s := s) ha) (grows_caseTokens s.cases) grows_nil
  obtain ⟨hending, hclosed, hforest⟩ := hgrows.read_render rfl
  refine ⟨hending, hclosed, s.root, ?_, s.legibleSuite_root⟩
  rw [topElements]
  exact congrArg Forest.elements hforest

end WrittenSuite
end Reports
end FirmwareTests
