import FirmwareTests.Proofs.Markup.Elements
import FirmwareTests.Proofs.Reports.ResultSets
import FirmwareTests.Proofs.Reports.SuiteName
import FirmwareTests.Proofs.Reports.TreeReport

/-!
# Reports as they are written

A report is written as a root with the name of its suite and one element for each test
case. The message of a failure is written in chunks, each of them escaped or in a CDATA
section of its own. The report is read back, and how its messages are divided makes no
difference to what is read.
-/

namespace FirmwareTests
namespace Reports

open Markup

/-! ### Names of tests -/

/-- Whether no part of a name has a dot in it. -/
structure TestName.DotFree (n : TestName) : Prop where
  suite : '.' ∉ n.suite.toList
  testCase : '.' ∉ n.testCase.toList
  assertion : '.' ∉ n.assertion.toList

theorem TestName.parse_display {n : TestName} (h : n.DotFree) :
    TestName.parse n.display.toList = .ok n := by
  have hdisplay : n.display.toList =
      n.suite.toList ++ '.' :: (n.testCase.toList ++ '.' :: n.assertion.toList) := by
    simp [display]
  have hsegments : Text.segments '.' n.display.toList =
      [n.suite.toList, n.testCase.toList, n.assertion.toList] := by
    rw [hdisplay, Text.segments_append, Text.segments_append, Text.segments_of_notMem h.suite,
      Text.segments_of_notMem h.testCase, Text.segments_of_notMem h.assertion]
    rfl
  rw [parse, hsegments]
  simp

/-! ### Messages -/

/-- A piece of a message: text that is written escaped, or text that is written in a
CDATA section, which does not end inside of it. -/
inductive Chunk where
  | escaped (text : List Char)
  | cdata (content : List Char) (whole : ¬ "]]>".toList <:+: content)

namespace Chunk

def text : Chunk → List Char
  | escaped text => text
  | cdata content _ => content

def written : Chunk → List Char
  | escaped text => escape text
  | cdata content _ => (Token.cdata content).render

end Chunk

/-- The token of an escaped text, if there is any text. -/
def textTokens (text : List Char) : List Token :=
  if text = [] then [] else [.text (escape text)]

/-- The tokens of a message. Escaped texts side by side are one token, so the text before
the first chunk is taken along. -/
def messageTokens (text : List Char) : List Chunk → List Token
  | [] => textTokens text
  | .escaped more :: chunks => messageTokens (text ++ more) chunks
  | .cdata content _ :: chunks => textTokens text ++ .cdata content :: messageTokens [] chunks

theorem escape_ne_nil {text : List Char} (h : text ≠ []) : escape text ≠ [] := by
  intro hnil
  have hread := unescape_escape text
  rw [hnil] at hread
  have hempty : unescape [] = .ok [] := unescape_escape []
  rw [hempty] at hread
  exact h (Except.ok.inj hread).symm

theorem render_textTokens (text : List Char) : render (textTokens text) = escape text := by
  unfold textTokens
  split
  · next h => rw [h]; rfl
  · simp [Token.render_text]

theorem spelled_textTokens (text : List Char) : Spelled (textTokens text) := by
  unfold textTokens
  split
  · trivial
  · next h => exact ⟨⟨escape_ne_nil h, notMem_escape (by decide) text⟩, by simp, trivial⟩

theorem flatMap_leafText_textTokens (text : List Char) :
    (textTokens text).flatMap leafText = text := by
  unfold textTokens
  split
  · next h => rw [h]; rfl
  · simp [leafText, unescape_escape]

theorem mem_textTokens {text : List Char} {t : Token} (h : t ∈ textTokens text) :
    t = .text (escape text) := by
  unfold textTokens at h
  split at h
  · cases h
  · exact List.mem_singleton.mp h

theorem render_messageTokens (text : List Char) (chunks : List Chunk) :
    render (messageTokens text chunks) = escape text ++ chunks.flatMap Chunk.written := by
  induction chunks generalizing text with
  | nil => simp [messageTokens, render_textTokens]
  | cons chunk chunks ih =>
    cases chunk with
    | escaped more => simp [messageTokens, ih, Chunk.written]
    | cdata content whole => simp [messageTokens, ih, Chunk.written, render_textTokens]

theorem spelled_messageTokens (text : List Char) (chunks : List Chunk) :
    Spelled (messageTokens text chunks) := by
  induction chunks generalizing text with
  | nil => exact spelled_textTokens text
  | cons chunk chunks ih =>
    cases chunk with
    | escaped more => exact ih (text ++ more)
    | cdata content whole =>
      exact (spelled_textTokens text).append_cons (legible_cdata_of_whole whole) rfl (ih [])

theorem mem_messageTokens {text : List Char} {chunks : List Chunk} {t : Token}
    (h : t ∈ messageTokens text chunks) :
    (∃ escaped, t = .text (escape escaped)) ∨ ∃ content, t = .cdata content := by
  induction chunks generalizing text with
  | nil => exact .inl ⟨text, mem_textTokens h⟩
  | cons chunk chunks ih =>
    cases chunk with
    | escaped more => exact ih h
    | cdata content whole =>
      rcases List.mem_append.mp h with h | h
      · exact .inl ⟨text, mem_textTokens h⟩
      · rcases List.mem_cons.mp h with rfl | h
        · exact .inr ⟨content, rfl⟩
        · exact ih h

theorem flatMap_leafText_messageTokens (text : List Char) (chunks : List Chunk) :
    (messageTokens text chunks).flatMap leafText = text ++ chunks.flatMap Chunk.text := by
  induction chunks generalizing text with
  | nil => simp [messageTokens, flatMap_leafText_textTokens]
  | cons chunk chunks ih =>
    cases chunk with
    | escaped more => simp [messageTokens, ih, Chunk.text]
    | cdata content whole =>
      simp [messageTokens, ih, Chunk.text, flatMap_leafText_textTokens, leafText]

theorem grows_messageTokens (text : List Char) (chunks : List Chunk) :
    Grows (messageTokens text chunks) (.ofLeaves (messageTokens text chunks)) := by
  refine grows_ofLeaves ?_ (spelled_messageTokens text chunks)
  intro t ht
  rcases mem_messageTokens ht with ⟨_, rfl⟩ | ⟨_, rfl⟩ <;> rfl

/-! ### Test cases -/

/-- A test case as it is written: its name, the message of its failure if it has failed,
and whether the innermost element is an empty tag when there is nothing inside it. -/
structure WrittenCase where
  name : TestName
  dotFree : name.DotFree
  failure : Option (List Chunk)
  short : Bool

/-- The outcome of a case whose failure, if it has one, says the given text. -/
def Outcome.ofText? : Option (List Char) → Outcome
  | none => .passed
  | some text => .failed (String.ofList (Text.trim text))

namespace WrittenCase

def text? (c : WrittenCase) : Option (List Char) :=
  c.failure.map fun chunks => chunks.flatMap Chunk.text

def outcome (c : WrittenCase) : Outcome :=
  .ofText? c.text?

def attributes (c : WrittenCase) : List Attribute :=
  [titleAttribute c.name.display.toList]

def written (c : WrittenCase) : List Char :=
  writtenElement c.short "testcase".toList c.attributes
    (match c.failure with
      | none => []
      | some chunks =>
        writtenElement c.short "failure".toList [] (chunks.flatMap Chunk.written))

def inner (c : WrittenCase) : List Token :=
  match c.failure with
  | none => []
  | some chunks => elementTokens c.short "failure".toList [] (messageTokens [] chunks)

def tokens (c : WrittenCase) : List Token :=
  elementTokens c.short "testcase".toList c.attributes c.inner

def element (c : WrittenCase) : Element where
  tag := .ofAttributes "testcase".toList c.attributes
  content :=
    match c.failure with
    | none => .nil
    | some chunks =>
      .element (.ofAttributes "failure".toList []) (.ofLeaves (messageTokens [] chunks)) .nil

end WrittenCase

/-! ### Titled elements -/

section

variable {name : List Char} (hname : IsElementName name) (title : List Char)
include hname

theorem attributes_titled :
    (Tag.ofAttributes name [titleAttribute title]).attributes = ⟨[titleAttribute title], none⟩ := by
  refine Tag.attributes_ofAttributes hname.isSpace ?_ ?_ (by simp)
  · intro a ha
    obtain rfl := List.mem_singleton.mp ha
    exact isKey_titleKey
  · intro a ha
    obtain rfl := List.mem_singleton.mp ha
    exact (legible_titleAttribute title).plain.2

theorem value?_title :
    (Tag.ofAttributes name [titleAttribute title]).value? "name" = some (some title) := by
  have hfind : ([titleAttribute title].find? fun a => a.key == "name".toList) =
      some (titleAttribute title) := List.find?_cons_of_pos (beq_self_eq_true titleKey)
  rw [value?_eq_of_attributes (attributes_titled hname title), hfind]
  simp [titleAttribute, unescape_escape]

theorem value?_titled_of_ne {key : String} (hkey : titleKey ≠ key.toList) :
    (Tag.ofAttributes name [titleAttribute title]).value? key = some none := by
  have hfind : ([titleAttribute title].find? fun a => a.key == key.toList) = none :=
    List.find?_cons_of_neg fun heq => hkey (beq_iff_eq.mp heq)
  rw [value?_eq_of_attributes (attributes_titled hname title), hfind]

end

theorem isElementName_testcase : IsElementName "testcase".toList :=
  ⟨by decide, List.all_eq_true.mp (by decide)⟩

theorem isElementName_failure : IsElementName "failure".toList :=
  ⟨by decide, List.all_eq_true.mp (by decide)⟩

namespace WrittenCase

variable (c : WrittenCase)

theorem legible_attributes : ∀ a ∈ c.attributes, a.Legible := by
  intro a ha
  obtain rfl := List.mem_singleton.mp ha
  exact legible_titleAttribute _

theorem grows_inner : Grows c.inner c.element.content := by
  obtain ⟨name, dotFree, failure, short⟩ := c
  cases failure with
  | none => exact grows_nil
  | some chunks =>
    have hmessage := grows_messageTokens [] chunks
    have hgrows : Grows (elementTokens short "failure".toList [] (messageTokens [] chunks) ++ [])
        _ := Grows.elementTokens isElementName_failure nofun hmessage grows_nil
    rwa [List.append_nil] at hgrows

theorem render_tokens : render c.tokens = c.written := by
  rw [tokens, render_elementTokens c.grows_inner.spelled, written]
  obtain ⟨name, dotFree, failure, short⟩ := c
  cases failure with
  | none => rfl
  | some chunks =>
    rw [inner, render_elementTokens (spelled_messageTokens [] chunks), render_messageTokens]
    rfl

theorem failuresIn_element : failuresIn c.element =
    (c.failure.map fun chunks =>
      ⟨.ofAttributes "failure".toList [], .ofLeaves (messageTokens [] chunks)⟩).toList := by
  obtain ⟨name, dotFree, failure, short⟩ := c
  cases failure with
  | none => rfl
  | some chunks =>
    exact Forest.named_element (Tag.name_ofAttributes isElementName_failure.isSpace)

theorem legibleFailure_element : ∀ failure ∈ failuresIn c.element, LegibleFailure failure := by
  intro failure hfailure raw hraw
  rw [failuresIn_element] at hfailure
  obtain ⟨chunks, -, rfl⟩ := Option.map_eq_some_iff.mp (Option.mem_toList.mp hfailure)
  rw [Forest.leaves_ofLeaves] at hraw
  rcases mem_messageTokens hraw with ⟨escaped, heq⟩ | ⟨content, heq⟩
  · cases heq
    exact ⟨escaped, unescape_escape escaped⟩
  · cases heq

theorem treeOutcome_element : treeOutcome c.element = c.outcome := by
  rw [treeOutcome, failuresIn_element, outcome, text?]
  cases c.failure with
  | none => rfl
  | some chunks =>
    have htext := flatMap_leafText_messageTokens [] chunks
    rw [List.nil_append] at htext
    simp [failureText, htext, Outcome.ofText?]

theorem treeResult?_element : treeResult? c.element = some (c.name, c.outcome) := by
  have hvalue : c.element.tag.value? "name" = some (some c.name.display.toList) :=
    value?_title isElementName_testcase _
  rw [treeResult?, treeOutcome_element, Builder.caseName?, hvalue]
  simp [TestName.parse_display c.dotFree]

end WrittenCase

/-! ### Reports -/

/-- A report as it is written: the name of its suite and its test cases. -/
structure WrittenReport where
  suiteName : String
  cases : List WrittenCase

namespace WrittenReport

variable (r : WrittenReport)

def document : List Char :=
  writtenElement false "testsuite".toList [titleAttribute r.suiteName.toList]
    (r.cases.flatMap WrittenCase.written)

def report : Report where
  suiteName := some r.suiteName
  declaredTests := none
  declaredFailures := none
  testCases := r.cases.length
  failedTestCases := r.cases.countP fun c => c.failure.isSome
  results := r.cases.foldl (fun set c => set.insert c.name c.outcome) ∅

def root : Element where
  tag := .ofAttributes "testsuite".toList [titleAttribute r.suiteName.toList]
  content := r.cases.foldr (fun c rest => .element c.element.tag c.element.content rest) .nil

theorem grows_cases : Grows (r.cases.flatMap WrittenCase.tokens) r.root.content := by
  have hcases : ∀ cases : List WrittenCase, Grows (cases.flatMap WrittenCase.tokens)
      (cases.foldr (fun c rest => .element c.element.tag c.element.content rest) .nil) := by
    intro cases
    induction cases with
    | nil => exact grows_nil
    | cons c cases ih =>
      exact Grows.elementTokens isElementName_testcase c.legible_attributes c.grows_inner ih
  exact hcases r.cases

theorem testCasesIn_root : testCasesIn r.root = r.cases.map WrittenCase.element := by
  obtain ⟨suiteName, cases⟩ := r
  induction cases with
  | nil => rfl
  | cons c cases ih =>
    refine (Forest.named_element ?_).trans (congrArg (c.element :: ·) ih)
    exact Tag.name_ofAttributes isElementName_testcase.isSpace

theorem ofElements?_root : Report.ofElements? [r.root] = some r.report := by
  have hresults : (testCasesIn r.root).map treeResult? =
      (r.cases.map fun c => (c.name, c.outcome)).map some := by
    rw [testCasesIn_root, List.map_map, List.map_map]
    exact List.map_congr_left fun c _ => c.treeResult?_element
  have hroot : Builder.rootReport? r.root.tag = some ⟨some r.suiteName, none, none, 0, 0, ∅⟩ := by
    refine rootReport?_eq_some_iff.mpr ⟨none, none, some r.suiteName.toList, ?_, ?_, ?_, ?_⟩
    · exact value?_titled_of_ne isElementName_testsuite _ (by decide)
    · exact value?_titled_of_ne isElementName_testsuite _ (by decide)
    · exact value?_title isElementName_testsuite _
    · simp [declaredCount?]
  rw [ofElements?_singleton, hroot, Option.bind_some, foldlM_addTestCase?_eq_some_iff]
  refine ⟨?_, _, hresults, ?_⟩
  · intro testCase htestCase
    rw [testCasesIn_root] at htestCase
    obtain ⟨c, -, rfl⟩ := List.mem_map.mp htestCase
    exact c.legibleFailure_element
  · have hfailed : ∀ c : WrittenCase, (!c.outcome.isPassed) = c.failure.isSome := by
      intro c
      rw [WrittenCase.outcome, WrittenCase.text?]
      cases c.failure <;> rfl
    rw [foldl_add]
    simp [report, List.countP_map, List.foldl_map, Function.comp_def, hfailed]

theorem topElements_document : (read r.document).ending = .complete ∧
    openElements ((read r.document).tokens.map Located.token) = 0 ∧
      topElements r.document = [r.root] := by
  have hgrows := Grows.element isElementName_testsuite
    (fun a ha => List.mem_singleton.mp ha ▸ legible_titleAttribute r.suiteName.toList)
    r.grows_cases grows_nil
  have hcases : render (r.cases.flatMap WrittenCase.tokens) =
      r.cases.flatMap WrittenCase.written := by
    rw [render, List.flatMap_assoc]
    exact List.flatMap_congr fun c _ => c.render_tokens
  have hdocument : r.document = render (.start r.root.tag ::
      (r.cases.flatMap WrittenCase.tokens ++ [.close ⟨"testsuite".toList⟩])) := by
    rw [render_cons, render_append, hcases, document, writtenElement]
    simp [root]
  obtain ⟨hending, hclosed, hforest⟩ := hgrows.read_render rfl
  rw [hdocument, topElements]
  refine ⟨hending, hclosed, ?_⟩
  rw [root, hforest]
  rfl

end WrittenReport

theorem WrittenReport.report_congr {r s : WrittenReport} (hname : s.suiteName = r.suiteName)
    (hcases : s.cases.map (fun c => (c.name, c.text?)) = r.cases.map fun c => (c.name, c.text?)) :
    s.report = r.report := by
  have hreport : ∀ w : WrittenReport, w.report =
      ⟨some w.suiteName, none, none, (w.cases.map fun c => (c.name, c.text?)).length,
        (w.cases.map fun c => (c.name, c.text?)).countP fun entry => entry.2.isSome,
        (w.cases.map fun c => (c.name, c.text?)).foldl
          (fun set entry => set.insert entry.1 (.ofText? entry.2)) ∅⟩ := by
    intro w
    simp [report, List.foldl_map, List.countP_map, Function.comp_def, WrittenCase.outcome,
      WrittenCase.text?]
  rw [hreport, hreport, hname, hcases]

/-- A report that is written is read back: with the name of its suite, all of its test
cases, and for each name the outcome of the last case of that name. How the messages are
divided into chunks makes no difference. -/
theorem parse_document (r : WrittenReport) :
    Report.parse r.document = .ok r.report ∧
      (∀ name, r.report.results.find? name =
        (r.cases.reverse.find? fun c => c.name == name).map WrittenCase.outcome) ∧
      ∀ s : WrittenReport, s.suiteName = r.suiteName →
        s.cases.map (fun c => (c.name, c.text?)) = r.cases.map (fun c => (c.name, c.text?)) →
          Report.parse s.document = Report.parse r.document := by
  have hparse : ∀ w : WrittenReport, Report.parse w.document = .ok w.report := by
    intro w
    obtain ⟨hending, hclosed, helements⟩ := w.topElements_document
    refine parse_eq_ok_iff_ofElements?.mpr ⟨hending, hclosed, ?_⟩
    rw [helements]
    exact w.ofElements?_root
  refine ⟨hparse r, ?_, ?_⟩
  · intro name
    have hfind := ResultSet.find?_foldl_insert (r.cases.map fun c => (c.name, c.outcome)) ∅ name
    have hcomp : ((fun result : TestName × Outcome => result.1 == name) ∘
        fun c : WrittenCase => (c.name, c.outcome)) = fun c => c.name == name := rfl
    rw [List.foldl_map, ← List.map_reverse, List.find?_map, hcomp] at hfind
    refine hfind.trans ?_
    cases r.cases.reverse.find? fun c => c.name == name <;> rfl
  · intro s hname hcases
    rw [hparse, hparse, WrittenReport.report_congr hname hcases]

/-- A report with two cases of one name, of which the later one passes. -/
def writtenSample : WrittenReport where
  suiteName := "A<B> \"é\""
  cases := [
    ⟨⟨"s", "c", "a"⟩, ⟨by decide, by decide, by decide⟩,
      some [.escaped " x<".toList, .cdata "]]".toList (by decide), .escaped ">&".toList], false⟩,
    ⟨⟨"s", "c", "b"⟩, ⟨by decide, by decide, by decide⟩, some [], true⟩,
    ⟨⟨"s", "c", "a"⟩, ⟨by decide, by decide, by decide⟩, none, true⟩]

def dividedSample : WrittenReport where
  suiteName := "A<B> \"é\""
  cases := [
    ⟨⟨"s", "c", "a"⟩, ⟨by decide, by decide, by decide⟩,
      some [.cdata " x<]]".toList (by decide), .escaped ">".toList, .escaped "&".toList], true⟩,
    ⟨⟨"s", "c", "b"⟩, ⟨by decide, by decide, by decide⟩, some [.escaped []], false⟩,
    ⟨⟨"s", "c", "a"⟩, ⟨by decide, by decide, by decide⟩, none, false⟩]

theorem parse_document_divided : Report.parse writtenSample.document = .ok writtenSample.report ∧
    Report.parse dividedSample.document = Report.parse writtenSample.document := by
  obtain ⟨hparse, -, hdivided⟩ := parse_document writtenSample
  exact ⟨hparse, hdivided dividedSample rfl rfl⟩

end Reports
end FirmwareTests
