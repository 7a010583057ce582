import Mathlib.Data.List.DropRight
import FirmwareTests.Proofs.Console.Highlighting
import FirmwareTests.Proofs.Text.ByteOrder
import FirmwareTests.Text.Segments

/-!
# Reading a summary back

Without colour a summary is a row of lines, and the lines tell the results: how a line begins
decides what it is, and a line that ends with a failure is followed by its message. Names may
look like anything, padding and status words included, as long as they stay on their line.
-/

namespace FirmwareTests

namespace Text

def unlines (lines : List (List Char)) : List Char :=
  lines.flatMap fun line => line ++ ['\n']

theorem segments_unlines {lines : List (List Char)} (h : ∀ line ∈ lines, '\n' ∉ line)
    (rest : List Char) :
    segments '\n' (unlines lines ++ rest) = lines ++ segments '\n' rest := by
  induction lines with
  | nil => rfl
  | cons line lines ih =>
    obtain ⟨hline, hlines⟩ := List.forall_mem_cons.mp h
    have htext : unlines (line :: lines) ++ rest = line ++ '\n' :: (unlines lines ++ rest) := by
      simp [unlines]
    rw [htext, segments_append, segments_of_notMem hline, ih hlines]
    rfl

end Text

namespace Console

open Files Reports

/-! ### Lines -/

def statusLine (name : String) (passed : Bool) : List Char :=
  "    ".toList ++ (name ++ ": " ++ padding name ++ Segment.word passed).toList

def assertionLines (name : String) : Outcome → List (List Char)
  | .passed => [statusLine name true]
  | .failed message => [statusLine name false, "      ".toList ++ message.toList]

def caseLines (name : String) (assertions : CaseResults) : List (List Char) :=
  ("  Test Case: ".toList ++ name.toList) ::
    assertions.entries.flatMap fun assertion => assertionLines assertion.1 assertion.2

def suiteLines (name : String) (cases : SuiteResults) : List (List Char) :=
  ("Test Suite: ".toList ++ name.toList) ::
    cases.entries.flatMap fun testCase => caseLines testCase.1 testCase.2

def bodyLines (results : ResultSet) : List (List Char) :=
  results.suites.entries.flatMap fun suite => suiteLines suite.1 suite.2

/-! ### Reading lines -/

/-- The suite and the case that lines stand under. -/
structure Heading where
  suite : String
  testCase : String

/-- The name in the line of an assertion: what is left of the line without its status, the
spaces and the colon before that, and the spaces in front. -/
def assertionName (line : List Char) : String :=
  String.ofList ((Text.dropEndWhile (· == ' ') (line.rdrop 6)).dropLast.drop 4)

def readLines (heading : Heading) : List (List Char) → List (TestName × Outcome)
  | [] => []
  | line :: lines =>
    if "Test Suite: ".toList <+: line then
      readLines { heading with suite := String.ofList (line.drop 12) } lines
    else if "  Test Case: ".toList <+: line then
      readLines { heading with testCase := String.ofList (line.drop 13) } lines
    else if "    ".toList <+: line then
      let name : TestName := ⟨heading.suite, heading.testCase, assertionName line⟩
      if "Passed".toList <:+ line then (name, .passed) :: readLines heading lines
      else
        match lines with
        | [] => []
        | message :: lines =>
          (name, .failed (String.ofList (message.drop 6))) :: readLines heading lines
    else []

def readSummary (text : List Char) : List (TestName × Outcome) :=
  readLines ⟨"", ""⟩ (Text.segments '\n' text)

section

variable (heading : Heading) (name : String) (lines : List (List Char))

theorem readLines_suite : readLines heading (("Test Suite: ".toList ++ name.toList) :: lines) =
    readLines { heading with suite := name } lines := by
  rw [readLines, if_pos (List.prefix_append _ _)]
  simp

theorem readLines_case : readLines heading (("  Test Case: ".toList ++ name.toList) :: lines) =
    readLines { heading with testCase := name } lines := by
  rw [readLines, if_neg (by simp), if_pos (List.prefix_append _ _)]
  simp

theorem statusLine_eq (passed : Bool) : statusLine name passed =
    ("    ".toList ++ name.toList ++ [':'] ++
      List.replicate (statusColumn - name.length + 1) ' ') ++ (Segment.word passed).toList := by
  simp [statusLine, padding, List.replicate_succ]

/-- Nothing of a name is lost with the padding, for a colon stands between the two. -/
theorem assertionName_statusLine (passed : Bool) :
    assertionName (statusLine name passed) = name := by
  have hword : (Segment.word passed).toList.length = 6 := by
    cases passed <;> rfl
  have hspaces : Text.dropEndWhile (· == ' ') ("    ".toList ++ name.toList ++ [':'] ++
      List.replicate (statusColumn - name.length + 1) ' ') =
        "    ".toList ++ name.toList ++ [':'] := by
    rw [Text.dropEndWhile, List.reverse_append, List.dropWhile_append_of_pos (by simp)]
    simp
  rw [assertionName, statusLine_eq, ← hword, List.rdrop_append_length, hspaces,
    List.dropLast_concat]
  simp

theorem suffix_statusLine (passed : Bool) :
    "Passed".toList <:+ statusLine name passed ↔ passed = true := by
  rw [statusLine_eq]
  cases passed with
  | true => exact iff_of_true (List.suffix_append _ _) rfl
  | false =>
    apply iff_of_false
    · intro hsuffix
      have hlength : "Passed".toList.length ≤ (Segment.word false).toList.length := by
        decide
      have hword := List.suffix_of_suffix_length_le hsuffix (List.suffix_append _ _) hlength
      revert hword
      decide
    · nofun

/-- The line of an assertion tells its name. What it says of the outcome is at its end. -/
theorem readLines_statusLine (passed : Bool) :
    readLines heading (statusLine name passed :: lines) =
      if passed then
        (⟨heading.suite, heading.testCase, name⟩, .passed) :: readLines heading lines
      else
        match lines with
        | [] => []
        | message :: lines => (⟨heading.suite, heading.testCase, name⟩,
            .failed (String.ofList (message.drop 6))) :: readLines heading lines := by
  have hsuite : ¬ "Test Suite: ".toList <+: statusLine name passed := by simp [statusLine]
  have hcase : ¬ "  Test Case: ".toList <+: statusLine name passed := by simp [statusLine]
  have hline : "    ".toList <+: statusLine name passed := List.prefix_append _ _
  rw [readLines, if_neg hsuite, if_neg hcase, if_pos hline, assertionName_statusLine]
  simp only [suffix_statusLine]

end

/-! ### Lines that tell results -/

/-- Lines under a heading that tell results, whatever follows them, and lead to a heading. -/
def Tells (heading : Heading) (lines : List (List Char)) (results : List (TestName × Outcome))
    (next : Heading) : Prop :=
  ∀ rest, readLines heading (lines ++ rest) = results ++ readLines next rest

theorem Tells.append {heading next last : Heading} {lines others : List (List Char)}
    {results more : List (TestName × Outcome)} (h : Tells heading lines results next)
    (h' : Tells next others more last) :
    Tells heading (lines ++ others) (results ++ more) last := by
  intro rest
  rw [List.append_assoc, h, h', List.append_assoc]

/-- Groups of lines tell results in a row when each group does, under any heading of a kind
that the groups before it lead to. -/
theorem exists_tells_flatMap {α : Type} {lines : α → List (List Char)}
    {results : α → List (TestName × Outcome)} (Kind : Heading → Prop) {as : List α}
    (h : ∀ a ∈ as, ∀ heading, Kind heading → ∃ next, Kind next ∧
      Tells heading (lines a) (results a) next) (heading : Heading) (hkind : Kind heading) :
    ∃ next, Kind next ∧ Tells heading (as.flatMap lines) (as.flatMap results) next := by
  induction as generalizing heading with
  | nil => exact ⟨heading, hkind, fun rest => rfl⟩
  | cons a as ih =>
    obtain ⟨hfirst, hrest⟩ := List.forall_mem_cons.mp h
    obtain ⟨next, hnext, htells⟩ := hfirst heading hkind
    obtain ⟨last, hlast, htells'⟩ := ih hrest next hnext
    exact ⟨last, hlast, htells.append htells'⟩

section

variable (heading : Heading) (name : String)

theorem tells_assertionLines (outcome : Outcome) : Tells heading (assertionLines name outcome)
    [(⟨heading.suite, heading.testCase, name⟩, outcome)] heading := by
  intro rest
  cases outcome with
  | passed => exact readLines_statusLine heading name rest true
  | failed message =>
    apply (readLines_statusLine heading name _ false).trans
    simp

theorem tells_caseLines (assertions : CaseResults) : Tells heading (caseLines name assertions)
    (assertions.entries.flatMap fun assertion =>
      [(⟨heading.suite, name, assertion.1⟩, assertion.2)]) ⟨heading.suite, name⟩ := by
  have hassertion : ∀ assertion ∈ assertions.entries, ∀ next, next = ⟨heading.suite, name⟩ →
      ∃ last, last = ⟨heading.suite, name⟩ ∧
        Tells next (assertionLines assertion.1 assertion.2)
          [(⟨heading.suite, name, assertion.1⟩, assertion.2)] last := by
    rintro assertion - next rfl
    exact ⟨_, rfl, tells_assertionLines _ assertion.1 assertion.2⟩
  obtain ⟨last, rfl, htells⟩ := exists_tells_flatMap _ hassertion _ rfl
  intro rest
  rw [caseLines, List.cons_append, readLines_case, htells]

theorem tells_suiteLines (cases : SuiteResults) : ∃ next,
    Tells heading (suiteLines name cases) (cases.entries.flatMap fun testCase =>
      testCase.2.entries.flatMap fun assertion =>
        [(⟨name, testCase.1, assertion.1⟩, assertion.2)]) next := by
  have hcase : ∀ testCase ∈ cases.entries, ∀ next : Heading, next.suite = name →
      ∃ last : Heading, last.suite = name ∧ Tells next (caseLines testCase.1 testCase.2)
        (testCase.2.entries.flatMap fun assertion =>
          [(⟨name, testCase.1, assertion.1⟩, assertion.2)]) last := by
    rintro testCase - next rfl
    exact ⟨⟨next.suite, testCase.1⟩, rfl, tells_caseLines next testCase.1 testCase.2⟩
  obtain ⟨last, -, htells⟩ := exists_tells_flatMap (fun next : Heading => next.suite = name)
    hcase { heading with suite := name } rfl
  refine ⟨last, fun rest => ?_⟩
  rw [suiteLines, List.cons_append, readLines_suite, htells]

end

theorem tells_bodyLines (heading : Heading) (results : ResultSet) :
    ∃ next, Tells heading (bodyLines results) results.toList next := by
  have hsuite : ∀ suite ∈ results.suites.entries, ∀ next : Heading, True →
      ∃ last, True ∧ Tells next (suiteLines suite.1 suite.2)
        (suite.2.entries.flatMap fun testCase => testCase.2.entries.flatMap fun assertion =>
          [(⟨suite.1, testCase.1, assertion.1⟩, assertion.2)]) last := by
    rintro suite - next -
    obtain ⟨last, htells⟩ := tells_suiteLines next suite.1 suite.2
    exact ⟨last, trivial, htells⟩
  obtain ⟨last, -, htells⟩ := exists_tells_flatMap _ hsuite heading trivial
  have hresults : results.toList = results.suites.entries.flatMap fun suite =>
      suite.2.entries.flatMap fun testCase => testCase.2.entries.flatMap fun assertion =>
        [(⟨suite.1, testCase.1, assertion.1⟩, assertion.2)] := by
    simp only [ResultSet.toList, List.map_eq_flatMap]
  exact ⟨last, hresults ▸ htells⟩

/-! ### The text of a summary -/

def summaryText (results : ResultSet) : List Char :=
  (bodySegments results ++ [footer results.tally]).flatMap fun segment => segment.unstyled.toList

theorem summaryBytes_false (results : ResultSet) :
    summaryBytes false results = Text.bytes (summaryText results) := by
  rw [summaryBytes, funext Segment.bytes_false, summaryText, Text.bytes, List.flatMap_assoc]
  rfl

/-- What the pieces of a summary say, without the last, are its lines. -/
theorem unlines_bodyLines (results : ResultSet) : Text.unlines (bodyLines results) =
    (bodySegments results).flatMap fun segment => segment.unstyled.toList := by
  have hassertion (name : String) (outcome : Outcome) :
      Text.unlines (assertionLines name outcome) =
        (assertionSegments name outcome).flatMap fun segment => segment.unstyled.toList := by
    cases outcome <;>
      simp [Text.unlines, assertionLines, assertionSegments, statusLine, Segment.unstyled,
        Outcome.isPassed]
  simp only [Text.unlines] at hassertion
  simp only [Text.unlines, bodyLines, suiteLines, caseLines, bodySegments, suiteSegments,
    caseSegments, List.flatMap_assoc, List.flatMap_cons, hassertion]
  simp [Segment.unstyled]

theorem exists_unstyled_footer (tally : Tally) : ∃ digit rest, digit.isDigit = true ∧
    (footer tally).unstyled.toList = digit :: rest := by
  have htotal : Nat.toDigits 10 tally.total <+: (footer tally).unstyled.toList := by
    simp [footer, Segment.unstyled]
  obtain ⟨digit, digits, hdigits⟩ := List.exists_cons_of_ne_nil
    (Nat.toDigits_ne_nil (n := tally.total) (b := 10))
  have hdigit : digit.isDigit = true := by
    apply Nat.isDigit_of_mem_toDigits (b := 10) (n := tally.total) (by decide) (by decide)
    simp [hdigits]
  rw [hdigits] at htotal
  obtain ⟨more, hmore⟩ := htotal
  exact ⟨digit, digits ++ more, hdigit, hmore.symm⟩

theorem readLines_footer (heading : Heading) (tally : Tally) :
    readLines heading (Text.segments '\n' (footer tally).unstyled.toList) = [] := by
  obtain ⟨digit, rest, hdigit, hfooter⟩ := exists_unstyled_footer tally
  have hne {c : Char} (hc : c.isDigit = false) : digit ≠ c := by
    rintro rfl
    exact Bool.false_ne_true (hc.symm.trans hdigit)
  obtain ⟨line, lines, hlines⟩ : ∃ line lines,
      Text.segments '\n' (digit :: rest) = (digit :: line) :: lines := by
    obtain ⟨line, lines, hrest⟩ :=
      List.exists_cons_of_ne_nil (Text.segments_ne_nil '\n' rest)
    refine ⟨line, lines, ?_⟩
    rw [Text.segments, if_neg (hne (by decide)), hrest]
  have hletter : 'T' ≠ digit := (hne (by decide)).symm
  have hblank : ' ' ≠ digit := (hne (by decide)).symm
  rw [hfooter, hlines, readLines, if_neg (by simp [hletter]), if_neg (by simp [hblank]),
    if_neg (by simp [hblank])]

/-- Sets whose names and messages stay on their lines. -/
structure SingleLine (results : ResultSet) : Prop where
  suites : ∀ suite ∈ results.suites.entries, '\n' ∉ suite.1.toList
  cases : ∀ suite ∈ results.suites.entries, ∀ testCase ∈ suite.2.entries,
    '\n' ∉ testCase.1.toList
  assertions : ∀ suite ∈ results.suites.entries, ∀ testCase ∈ suite.2.entries,
    ∀ assertion ∈ testCase.2.entries,
      '\n' ∉ assertion.1.toList ∧ '\n' ∉ assertion.2.message.toList

theorem notMem_bodyLines {results : ResultSet} (h : SingleLine results) :
    ∀ line ∈ bodyLines results, '\n' ∉ line := by
  intro line hline
  simp only [bodyLines, suiteLines, caseLines, List.mem_flatMap, List.mem_cons] at hline
  obtain ⟨suite, hsuite, rfl | ⟨testCase, hcase, rfl | ⟨assertion, hassertion, hline⟩⟩⟩ := hline
  · simp [h.suites suite hsuite]
  · simp [h.cases suite hsuite testCase hcase]
  · obtain ⟨hname, hmessage⟩ := h.assertions suite hsuite testCase hcase assertion hassertion
    have hstatus (passed : Bool) : '\n' ∉ statusLine assertion.1 passed := by
      cases passed <;> simp [statusLine_eq, hname, Segment.word]
    cases houtcome : assertion.2 with
    | passed =>
      rw [houtcome, assertionLines, List.mem_singleton] at hline
      rw [hline]
      exact hstatus true
    | failed message =>
      rw [houtcome] at hline hmessage
      rcases List.mem_pair.mp hline with rfl | rfl
      · exact hstatus false
      · simpa [Outcome.message] using hmessage

theorem readSummary_summaryText {results : ResultSet} (h : SingleLine results) :
    readSummary (summaryText results) = results.toList := by
  obtain ⟨next, htells⟩ := tells_bodyLines ⟨"", ""⟩ results
  rw [readSummary, summaryText, List.flatMap_append, ← unlines_bodyLines, List.flatMap_singleton,
    Text.segments_unlines (notMem_bodyLines h), htells, readLines_footer, List.append_nil]

/-! ### Summaries that are the same -/

/-- Result sets made by inserting and merging, whose names and messages stay on their lines,
are the same when their summaries without colour are. -/
theorem writeSummary_injective {r s : ResultSet} (hr : r.Reachable) (hs : s.Reachable)
    (hr' : SingleLine r) (hs' : SingleLine s)
    (h : ((writeSummary r).run (.ofSink .unlimited)).2.sink.received =
      ((writeSummary s).run (.ofSink .unlimited)).2.sink.received) : r = s := by
  have hreceived (results : ResultSet) :
      ((writeSummary results).run (.ofSink .unlimited)).2.sink.received =
        Text.bytes (summaryText results) := by
    have hrun := run_writeSummary_unbounded results false
    rw [Terminal.unbounded, ← Terminal.ofSink] at hrun
    rw [hrun, Terminal.passedOn, summaryBytes_false]
  rw [hreceived, hreceived] at h
  have htext : summaryText r = summaryText s := Text.bytes_injective h
  have hresults : r.toList = s.toList := by
    rw [← readSummary_summaryText hr', ← readSummary_summaryText hs', htext]
  apply hr.populated.ext hs.populated
  intro name
  apply Option.ext
  intro outcome
  rw [← ResultSet.mem_toList_iff, ← ResultSet.mem_toList_iff, hresults]

/-- Names that look like status words, padding and lines of a summary. -/
theorem writeSummary_injective_formatted :
    let left := ResultSet.merge
      (ResultSet.insert ∅ ⟨"Test Suite: a", "  Test Case: b", "x: Passed"⟩ .passed)
      (ResultSet.insert ∅ ⟨"1 tests run,", "", "    y:  "⟩ (.failed "Test Suite: Passed"))
    let right := (ResultSet.insert ∅ ⟨"1 tests run,", "", "    y:  "⟩
      (.failed "Test Suite: Passed")).insert ⟨"Test Suite: a", "  Test Case: b", "x: Passed"⟩
        .passed
    ((writeSummary left).run (.ofSink .unlimited)).2.sink.received =
        ((writeSummary right).run (.ofSink .unlimited)).2.sink.received ∧ left = right := by
  intro left right
  have hleft : SingleLine left := ⟨by decide +kernel, by decide +kernel, by decide +kernel⟩
  have hright : SingleLine right := ⟨by decide +kernel, by decide +kernel, by decide +kernel⟩
  have hsame : ((writeSummary left).run (.ofSink .unlimited)).2.sink.received =
      ((writeSummary right).run (.ofSink .unlimited)).2.sink.received := by
    decide +kernel
  exact ⟨hsame, writeSummary_injective (.merge (.insert _ _ .empty) (.insert _ _ .empty))
    (.insert _ _ (.insert _ _ .empty)) hleft hright hsame⟩

end Console
end FirmwareTests
