import FirmwareTests.Proofs.Markup.Forest
import FirmwareTests.Proofs.Reports.Progress

/-!
# Reading a report from trees

What a builder makes of a nested row depends on the forest of the row alone. It passes
over most elements; inside a failure it collects the leaves, inside a test case the
failures, and inside a top-level element the test cases.
-/

namespace FirmwareTests
namespace Reports

open Markup

/-- The text of a failure with a leaf added to it. -/
def addText? (text : List Char) : Token → Option (List Char)
  | .text raw => (unescape raw).toOption.map (text ++ ·)
  | .cdata raw => some (text ++ raw)
  | _ => some text

/-- The text of a failure, which takes the place of an earlier one. -/
def addFailure? (_ : Option (List Char)) (failure : Element) : Option (Option (List Char)) :=
  (failure.content.leaves.foldlM addText? []).map some

def addTestCase? (report : Report) (testCase : Element) : Option Report := do
  let name ← Builder.caseName? testCase.tag
  let failure ← (testCase.content.named "failure").foldlM addFailure? none
  return Builder.record { report with testCases := report.testCases + 1 } ⟨name, failure⟩

/-- A report with the test cases added that are directly inside an element. -/
def addTestCases? (report : Report) (element : Element) : Option Report :=
  (element.content.named "testcase").foldlM addTestCase? report

/-- The report of a row of top-level elements. Test cases are counted in all of them. -/
def Report.ofElements? : List Element → Option Report
  | [] => none
  | root :: later => do
    let report ← Builder.rootReport? root.tag
    (root :: later).foldlM addTestCases? report

namespace Builder

section

variable {report : Report} {report? : Option Report} {pending? : Option Pending}
variable {inFailure : Bool} {name : TestName} {failure : Option (List Char)}
variable {ts : List Token} {f : Forest}

/-! ### Passing over elements -/

/-- The builders to which nothing inside the present element matters. -/
inductive Idle : Builder → Prop
  | deep (depth : Nat) (report? : Option Report) (pending? : Option Pending) (inFailure : Bool) :
      Idle ⟨depth + 4, report?, pending?, inFailure⟩
  | besideFailure (report? : Option Report) (pending? : Option Pending) :
      Idle ⟨3, report?, pending?, false⟩
  | besideTestCase (report? : Option Report) : Idle ⟨2, report?, none, false⟩

theorem Idle.next?_leaf {b : Builder} (h : b.Idle) {t : Token} (hleaf : t.isLeaf = true) :
    b.next? t = some b := by
  have hfailure : b.openFailure? = none := by
    cases h <;> simp [openFailure?]
  unfold next? step
  cases t with
  | start | empty | close => cases hleaf
  | text raw | cdata raw => simp only [hfailure, toOption_ok]
  | comment | instruction | doctype => rfl

theorem Idle.next?_start {b : Builder} (h : b.Idle) (tag : Tag) :
    b.next? (.start tag) = some { b with depth := b.depth + 1 } := by
  cases h with
  | deep | besideFailure => rfl
  | besideTestCase report? => cases report? <;> rfl

theorem Idle.inside {b : Builder} (h : b.Idle) : Idle { b with depth := b.depth + 1 } := by
  cases h with
  | deep depth report? pending? inFailure => exact .deep (depth + 1) report? pending? inFailure
  | besideFailure report? pending? => exact .deep 0 report? pending? false
  | besideTestCase report? => exact .besideFailure report? none

theorem Idle.next?_close {b : Builder} (h : b.Idle) (tag : EndTag) :
    next? { b with depth := b.depth + 1 } (.close tag) = some b := by
  cases h <;> rfl

theorem Idle.next?_empty {b : Builder} (h : b.Idle) (tag : Tag) :
    b.next? (.empty tag) = some b := by
  cases h with
  | deep | besideFailure => rfl
  | besideTestCase report? => cases report? <;> rfl

/-- An element is opened, filled and closed before what follows is read. -/
theorem foldlM_next?_element (b : Builder) (tag : Tag) (close : EndTag) (inner ts : List Token) :
    (.start tag :: (inner ++ .close close :: ts)).foldlM next? b =
      (b.next? (.start tag)).bind fun opened => (inner.foldlM next? opened).bind fun filled =>
        (filled.next? (.close close)).bind fun closed => ts.foldlM next? closed := by
  rw [List.foldlM_cons]
  simp only [List.foldlM_append, List.foldlM_cons]
  rfl

theorem Idle.foldlM_next? {b : Builder} (hidle : b.Idle) (h : Nests ts f) :
    ts.foldlM next? b = some b := by
  induction h generalizing b with
  | nil => rfl
  | leaf hleaf _ ih =>
    rw [List.foldlM_cons, hidle.next?_leaf hleaf]
    exact ih hidle
  | empty _ ih =>
    rw [List.foldlM_cons, hidle.next?_empty]
    exact ih hidle
  | element _ _ ihcontent ih =>
    rw [foldlM_next?_element, hidle.next?_start, Option.bind_some, ihcontent hidle.inside,
      Option.bind_some, hidle.next?_close]
    exact ih hidle

/-! ### Inside a failure -/

theorem next?_failure_leaf {t : Token} (hleaf : t.isLeaf = true) (text : List Char) :
    next? ⟨3, report?, some ⟨name, some text⟩, true⟩ t =
      (addText? text t).map fun text => ⟨3, report?, some ⟨name, some text⟩, true⟩ := by
  unfold next? step
  cases t with
  | start | empty | close => cases hleaf
  | text raw =>
    have hfailure : openFailure? ⟨3, report?, some ⟨name, some text⟩, true⟩ =
        some (⟨name, some text⟩, text) := rfl
    simp only [hfailure, addText?]
    cases unescape raw <;> rfl
  | cdata raw => rfl
  | comment | instruction | doctype => rfl

theorem foldlM_next?_failure (h : Nests ts f) (text : List Char) :
    ts.foldlM next? ⟨3, report?, some ⟨name, some text⟩, true⟩ =
      (f.leaves.foldlM addText? text).map fun text =>
        ⟨3, report?, some ⟨name, some text⟩, true⟩ := by
  induction h generalizing text with
  | nil => rfl
  | leaf hleaf _ ih =>
    rw [List.foldlM_cons, next?_failure_leaf hleaf, Forest.leaves, List.foldlM_cons]
    cases addText? text _ with
    | none => rfl
    | some more => exact ih more
  | empty _ ih => exact ih text
  | @element tag close inner ts content rest hcontent _ _ ih =>
    have hinner := (Idle.deep 0 report? (some ⟨name, some text⟩) true).foldlM_next? hcontent
    rw [foldlM_next?_element]
    calc (next? ⟨3, report?, some ⟨name, some text⟩, true⟩ (.start tag)).bind _
        = (inner.foldlM next? ⟨4, report?, some ⟨name, some text⟩, true⟩).bind _ := rfl
      _ = ts.foldlM next? ⟨3, report?, some ⟨name, some text⟩, true⟩ := by rw [hinner]; rfl
      _ = _ := ih text

/-! ### Inside a test case -/

theorem next?_testCase_leaf {t : Token} (hleaf : t.isLeaf = true) :
    next? ⟨2, some report, some ⟨name, failure⟩, false⟩ t =
      some ⟨2, some report, some ⟨name, failure⟩, false⟩ := by
  cases t with
  | start | empty | close => cases hleaf
  | _ => rfl

theorem next?_testCase_empty (tag : Tag) :
    next? ⟨2, some report, some ⟨name, failure⟩, false⟩ (.empty tag) =
      some ⟨2, some report, some ⟨name, if tag.name = "failure".toList then some []
        else failure⟩, false⟩ := by
  unfold next? step
  dsimp only
  by_cases hname : tag.name = "failure".toList
  · rw [openElement_failure hname, if_pos hname]
    rfl
  · rw [openElement_notFailure hname, if_neg hname]
    rfl

theorem next?_failure_start {tag : Tag} (hname : tag.name = "failure".toList) :
    next? ⟨2, report?, some ⟨name, failure⟩, false⟩ (.start tag) =
      some ⟨3, report?, some ⟨name, some []⟩, true⟩ := by
  unfold next? step
  dsimp only
  rw [openElement_failure hname]
  rfl

theorem next?_notFailure_start {tag : Tag} (hname : tag.name ≠ "failure".toList) :
    next? ⟨2, report?, some ⟨name, failure⟩, false⟩ (.start tag) =
      some ⟨3, report?, some ⟨name, failure⟩, false⟩ := by
  unfold next? step
  dsimp only
  rw [openElement_notFailure hname]
  rfl

theorem next?_failure_close (tag : EndTag) :
    next? ⟨3, report?, pending?, inFailure⟩ (.close tag) =
      some ⟨2, report?, pending?, false⟩ := rfl

theorem foldlM_next?_testCase (h : Nests ts f) (failure : Option (List Char)) :
    ts.foldlM next? ⟨2, some report, some ⟨name, failure⟩, false⟩ =
      ((f.named "failure").foldlM addFailure? failure).map fun failure =>
        ⟨2, some report, some ⟨name, failure⟩, false⟩ := by
  induction h generalizing failure with
  | nil => rfl
  | leaf hleaf _ ih =>
    rw [List.foldlM_cons, next?_testCase_leaf hleaf]
    exact ih failure
  | @empty tag ts rest _ ih =>
    rw [List.foldlM_cons, next?_testCase_empty]
    by_cases hname : tag.name = "failure".toList
    · rw [if_pos hname, Forest.named_element hname]
      exact ih (some [])
    · rw [if_neg hname, Forest.named_element_of_ne hname]
      exact ih failure
  | @element tag close inner ts content rest hcontent _ _ ih =>
    rw [foldlM_next?_element]
    by_cases hname : tag.name = "failure".toList
    · rw [next?_failure_start hname, Option.bind_some, foldlM_next?_failure hcontent,
        Forest.named_element hname, List.foldlM_cons, addFailure?]
      cases content.leaves.foldlM addText? [] with
      | none => rfl
      | some text => exact ih (some text)
    · rw [next?_notFailure_start hname, Option.bind_some,
        (Idle.besideFailure _ _).foldlM_next? hcontent, Option.bind_some, next?_failure_close,
        Forest.named_element_of_ne hname]
      exact ih failure

/-! ### Inside a top-level element -/

theorem next?_element_leaf {t : Token} (hleaf : t.isLeaf = true) :
    next? ⟨1, some report, none, false⟩ t = some ⟨1, some report, none, false⟩ := by
  cases t with
  | start | empty | close => cases hleaf
  | _ => rfl

theorem next?_testCase_start {tag : Tag} (hname : tag.name = "testcase".toList) :
    next? ⟨1, some report, none, false⟩ (.start tag) =
      (caseName? tag).map fun name =>
        ⟨2, some { report with testCases := report.testCases + 1 }, some ⟨name, none⟩, false⟩ := by
  unfold next? step
  exact toOption_openElement_testCase hname false 0

theorem next?_element_empty {tag : Tag} (hname : tag.name = "testcase".toList) :
    next? ⟨1, some report, none, false⟩ (.empty tag) =
      (addTestCase? report ⟨tag, .nil⟩).map fun report => ⟨1, some report, none, false⟩ := by
  have hopen : (openElement ⟨2, some report, none, false⟩ tag true 0).toOption = _ :=
    toOption_openElement_testCase hname true 0
  unfold next? step addTestCase?
  dsimp only
  rw [toOption_bind, hopen]
  cases caseName? tag <;> rfl

theorem next?_notTestCase_start {tag : Tag} (hname : tag.name ≠ "testcase".toList) :
    next? ⟨1, some report, none, false⟩ (.start tag) =
      some ⟨2, some report, none, false⟩ := by
  unfold next? step
  dsimp only
  rw [openElement_other hname]
  rfl

theorem next?_notTestCase_empty {tag : Tag} (hname : tag.name ≠ "testcase".toList) :
    next? ⟨1, some report, none, false⟩ (.empty tag) =
      some ⟨1, some report, none, false⟩ := by
  unfold next? step
  dsimp only
  rw [openElement_other hname]
  rfl

theorem next?_notTestCase_close (tag : EndTag) :
    next? ⟨2, some report, none, false⟩ (.close tag) =
      some ⟨1, some report, none, false⟩ := rfl

theorem foldlM_next?_testCases (h : Nests ts f) (report : Report) :
    ts.foldlM next? ⟨1, some report, none, false⟩ =
      ((f.named "testcase").foldlM addTestCase? report).map fun report =>
        ⟨1, some report, none, false⟩ := by
  induction h generalizing report with
  | nil => rfl
  | leaf hleaf _ ih =>
    rw [List.foldlM_cons, next?_element_leaf hleaf]
    exact ih report
  | @empty tag ts rest _ ih =>
    rw [List.foldlM_cons]
    by_cases hname : tag.name = "testcase".toList
    · rw [next?_element_empty hname, Forest.named_element hname, List.foldlM_cons]
      cases addTestCase? report ⟨tag, .nil⟩ with
      | none => rfl
      | some report => exact ih report
    · rw [next?_notTestCase_empty hname, Forest.named_element_of_ne hname]
      exact ih report
  | @element tag close inner ts content rest hcontent _ _ ih =>
    rw [foldlM_next?_element]
    by_cases hname : tag.name = "testcase".toList
    · rw [next?_testCase_start hname, Forest.named_element hname, List.foldlM_cons, addTestCase?]
      cases caseName? tag with
      | none => rfl
      | some name =>
        rw [Option.map_some, Option.bind_some, foldlM_next?_testCase hcontent]
        cases (content.named "failure").foldlM addFailure? none with
        | none => rfl
        | some failure => exact ih _
    · rw [next?_notTestCase_start hname, Option.bind_some,
        (Idle.besideTestCase _).foldlM_next? hcontent, Option.bind_some,
        next?_notTestCase_close, Forest.named_element_of_ne hname]
      exact ih report

/-! ### Top-level elements -/

theorem next?_laterRoot_start (tag : Tag) :
    next? ⟨0, some report, none, false⟩ (.start tag) = some ⟨1, some report, none, false⟩ := rfl

theorem tag?_of_isLeaf {t : Token} (h : t.isLeaf = true) : t.tag? = none := by
  cases t with
  | start | empty => cases h
  | _ => rfl

theorem foldlM_next?_later (h : Nests ts f) (report : Report) :
    ts.foldlM next? ⟨0, some report, none, false⟩ =
      (f.elements.foldlM addTestCases? report).map fun report =>
        ⟨0, some report, none, false⟩ := by
  induction h generalizing report with
  | nil => rfl
  | leaf hleaf _ ih =>
    rw [List.foldlM_cons, next?_of_tagless rfl (tag?_of_isLeaf hleaf)]
    exact ih report
  | empty _ ih => exact ih report
  | element hcontent _ _ ih =>
    rw [foldlM_next?_element, next?_laterRoot_start, Option.bind_some,
      foldlM_next?_testCases hcontent, Forest.elements, List.foldlM_cons, addTestCases?]
    cases (Forest.named _ "testcase").foldlM addTestCase? report with
    | none => rfl
    | some report => exact ih report

theorem foldlM_next?_initial (h : Nests ts f) :
    ts.foldlM next? initial =
      if f.elements = [] then some initial
      else (Report.ofElements? f.elements).map fun report => ⟨0, some report, none, false⟩ := by
  induction h with
  | nil => rfl
  | leaf hleaf _ ih =>
    rw [List.foldlM_cons, next?_of_tagless rfl (tag?_of_isLeaf hleaf)]
    exact ih
  | @empty tag ts rest hrest _ =>
    rw [List.foldlM_cons, next?_root rfl, Forest.elements, if_neg (List.cons_ne_nil _ _),
      Report.ofElements?]
    cases rootReport? tag with
    | none => rfl
    | some report => exact foldlM_next?_later hrest report
  | @element tag close inner ts content rest hcontent hrest _ _ =>
    rw [foldlM_next?_element, next?_root rfl, Forest.elements, if_neg (List.cons_ne_nil _ _),
      Report.ofElements?]
    cases rootReport? tag with
    | none => rfl
    | some report =>
      -- once its tag has been read, the root is filled like any other element
      have hnests : Nests (.start tag :: (inner ++ .close close :: ts))
          (.element tag content rest) := .element hcontent hrest
      have hlater := foldlM_next?_later hnests report
      rw [foldlM_next?_element, next?_laterRoot_start] at hlater
      exact hlater

/-! ### Depths -/

theorem depth_openElement {b b' : Builder} {tag : Tag} {isEmpty : Bool} {position : Nat}
    (h : (b.openElement tag isEmpty position).toOption = some b') : b'.depth = b.depth := by
  unfold openElement at h
  split at h
  · rw [toOption_bind] at h
    obtain ⟨report, -, h⟩ := Option.bind_eq_some_iff.mp h
    cases h
    rfl
  · split at h
    · rw [toOption_bind] at h
      obtain ⟨name, -, h⟩ := Option.bind_eq_some_iff.mp h
      cases h
      rfl
    · cases h
      rfl
  · split at h
    · cases h
      rfl
    · cases h
      rfl
  · cases h
    rfl

theorem depth_next? {b b' : Builder} {t : Token} (h : b.next? t = some b') :
    b'.depth = t.depthAfter b.depth := by
  unfold next? step at h
  cases t with
  | start tag => exact depth_openElement h
  | empty tag =>
    dsimp only at h
    rw [toOption_bind] at h
    obtain ⟨opened, -, h⟩ := Option.bind_eq_some_iff.mp h
    cases h
    rfl
  | text raw =>
    dsimp only at h
    split at h
    · cases h
      rfl
    · split at h
      · cases h
      · cases h
        rfl
  | cdata raw =>
    dsimp only at h
    split at h
    · cases h
      rfl
    · cases h
      rfl
  | close | comment | instruction | doctype =>
    cases h
    rfl

theorem depth_foldlM_next? {b b' : Builder} {ts : List Token}
    (h : ts.foldlM next? b = some b') : b'.depth = ts.foldl Token.depthAfter b.depth := by
  induction ts generalizing b with
  | nil =>
    cases h
    rfl
  | cons t ts ih =>
    rw [List.foldlM_cons] at h
    obtain ⟨between, hnext, hrest⟩ := Option.bind_eq_some_iff.mp h
    rw [ih hrest, depth_next? hnext, List.foldl_cons]

end

end Builder

/-- The top-level elements of a document, as far as it can be read. -/
def topElements (document : List Char) : List Element :=
  (Forest.ofTokens ((read document).tokens.map Located.token)).elements

/-- A document gives the report of its top-level elements when it can be read to its end
and all its elements are closed. -/
theorem parse_eq_ok_iff_ofElements? {document : List Char} {report : Report} :
    Report.parse document = .ok report ↔ (read document).ending = .complete ∧
      openElements ((read document).tokens.map Located.token) = 0 ∧
        Report.ofElements? (topElements document) = some report := by
  rw [parse_eq_ok_iff]
  constructor
  · rintro ⟨ts, b, hread, hfold, hdepth, hreport⟩
    obtain ⟨names, hnames⟩ := Option.isSome_iff_exists.mp (read_eq_complete_iff.mp hread).2
    have hclosed : openElements (ts.map Located.token) = 0 := by
      have h := Builder.depth_foldlM_next? hfold
      rw [hdepth] at h
      exact h.symm
    rw [(openElements_eq_zero_iff hnames).mp hclosed] at hnames
    rw [Builder.foldlM_next?_initial (nests_of_openNames hnames)] at hfold
    rw [topElements, hread]
    refine ⟨rfl, hclosed, ?_⟩
    split at hfold
    · cases hfold
      cases hreport
    · obtain ⟨report', hreport', rfl⟩ := Option.map_eq_some_iff.mp hfold
      cases hreport
      exact hreport'
  · rintro ⟨hending, hclosed, hreport⟩
    refine ⟨_, ⟨0, some report, none, false⟩, read_eq_of_complete hending, ?_, rfl, rfl⟩
    rw [Builder.foldlM_next?_initial (nests_of_openNames (openNames_of_closed hending hclosed))]
    rw [topElements] at hreport
    rw [hreport, if_neg]
    · rfl
    · intro hnil
      rw [hnil] at hreport
      cases hreport

end Reports
end FirmwareTests
