import FirmwareTests.Proofs.Console.Limits

/-!
# Highlighted summaries

A summary is plain text and status words in turn. With colour each word stands between two
escape sequences, and nothing else is different, whatever the names and messages are. There
is a word for each result, and the tally in the last line counts these words.
-/

namespace FirmwareTests
namespace Console

open Files Reports

/-! ### Pieces of a summary -/

namespace Segment

def unstyled : Segment → String
  | plain text => text
  | status passed => word passed

/-- What a piece says with colour: passed in bright green, failed in bright red. -/
def highlighted : Segment → String
  | plain text => text
  | status true => "\x1b[92mPassed\x1b[0m"
  | status false => "\x1b[91mFailed\x1b[0m"

theorem bytes_false (segment : Segment) :
    segment.bytes false = Text.bytes segment.unstyled.toList := by
  cases segment <;> rfl

theorem bytes_true (segment : Segment) :
    segment.bytes true = Text.bytes segment.highlighted.toList := by
  rcases segment with text | (_ | _)
  · rfl
  · rfl
  · rfl

/-- A row of pieces in which plain text and status words take turns, with plain text at
both ends. -/
inductive Alternates : List Segment → Prop
  | last (text : String) : Alternates [plain text]
  | cons (text : String) (passed : Bool) {segments : List Segment} (h : Alternates segments) :
      Alternates (plain text :: status passed :: segments)

/-- A row of pieces behind a plain text, with texts side by side made into one. -/
def joinPlain (text : String) : List Segment → List Segment
  | [] => [plain text]
  | plain more :: segments => joinPlain (text ++ more) segments
  | status passed :: segments => plain text :: status passed :: joinPlain "" segments

theorem alternates_joinPlain (text : String) (segments : List Segment) :
    Alternates (joinPlain text segments) := by
  induction segments generalizing text with
  | nil => exact .last text
  | cons segment segments ih =>
    cases segment with
    | plain more => exact ih (text ++ more)
    | status passed => exact .cons text passed (ih "")

theorem statuses_joinPlain (text : String) (segments : List Segment) :
    statuses (joinPlain text segments) = statuses segments := by
  induction segments generalizing text with
  | nil => rfl
  | cons segment segments ih =>
    cases segment with
    | plain more => exact ih (text ++ more)
    | status passed => exact congrArg (passed :: ·) (ih "")

theorem bytes_joinPlain (coloured : Bool) (text : String) (segments : List Segment) :
    (joinPlain text segments).flatMap (bytes coloured) =
      Text.bytes text.toList ++ segments.flatMap (bytes coloured) := by
  induction segments generalizing text with
  | nil => rfl
  | cons segment segments ih =>
    cases segment with
    | plain more =>
      rw [joinPlain, ih, String.toList_append, Text.bytes_append, List.append_assoc]
      rfl
    | status passed =>
      rw [joinPlain, List.flatMap_cons, List.flatMap_cons, ih]
      rfl

def EndsLine (segments : List Segment) : Prop :=
  segments = [] ∨ ∃ front line, segments = front ++ [plain (line ++ "\n")]

theorem EndsLine.append {segments others : List Segment} (h : EndsLine segments)
    (h' : EndsLine others) : EndsLine (segments ++ others) := by
  rcases h' with rfl | ⟨front, line, rfl⟩
  · rwa [List.append_nil]
  · exact .inr ⟨segments ++ front, line, (List.append_assoc ..).symm⟩

theorem endsLine_flatMap {α : Type} {f : α → List Segment} (h : ∀ a, EndsLine (f a))
    (as : List α) : EndsLine (as.flatMap f) := by
  induction as with
  | nil => exact .inl rfl
  | cons a as ih => exact (h a).append ih

/-- A row that ends with a plain text still does when its texts are joined. -/
theorem getLast?_joinPlain (text last : String) (segments : List Segment) : ∃ before,
    (joinPlain text (segments ++ [plain last])).getLast? = some (plain (before ++ last)) := by
  induction segments generalizing text with
  | nil => exact ⟨text, rfl⟩
  | cons segment segments ih =>
    cases segment with
    | plain more => exact ih (text ++ more)
    | status passed =>
      obtain ⟨before, hlast⟩ := ih ""
      refine ⟨before, ?_⟩
      rw [List.cons_append, joinPlain, List.getLast?_cons, List.getLast?_cons, hlast]
      rfl

theorem joinPlain_append_pair (text line last : String) (segments : List Segment) :
    joinPlain text (segments ++ [plain line] ++ [plain last]) =
      joinPlain text (segments ++ [plain (line ++ last)]) := by
  induction segments generalizing text with
  | nil => simp [joinPlain, String.append_assoc]
  | cons segment segments ih =>
    cases segment with
    | plain more => exact ih (text ++ more)
    | status passed =>
      simp only [List.cons_append, joinPlain]
      rw [ih]

/-- Behind a row that ends where a line does a text stands on a line of its own. -/
theorem EndsLine.getLast?_joinPlain {segments : List Segment} (h : EndsLine segments)
    (last : String) : ∃ before, (before = "" ∨ ∃ line, before = line ++ "\n") ∧
      (joinPlain "" (segments ++ [plain last])).getLast? = some (plain (before ++ last)) := by
  rcases h with rfl | ⟨front, line, rfl⟩
  · exact ⟨"", .inl rfl, rfl⟩
  · rw [joinPlain_append_pair]
    obtain ⟨before, hlast⟩ := Segment.getLast?_joinPlain "" (line ++ "\n" ++ last) front
    refine ⟨before ++ line ++ "\n", .inr ⟨before ++ line, rfl⟩, ?_⟩
    rw [hlast]
    simp only [String.append_assoc]

end Segment

/-! ### Summaries -/

theorem endsLine_assertionSegments (name : String) (outcome : Outcome) :
    Segment.EndsLine (assertionSegments name outcome) := by
  cases outcome with
  | passed => exact .inr ⟨[_, _], "", rfl⟩
  | failed message => exact .inr ⟨[_, _], "\n      " ++ message, rfl⟩

theorem endsLine_caseSegments (name : String) (assertions : CaseResults) :
    Segment.EndsLine (caseSegments name assertions) := by
  have hname : Segment.EndsLine [.plain ("  Test Case: " ++ name ++ "\n")] := .inr ⟨[], _, rfl⟩
  apply hname.append
  apply Segment.endsLine_flatMap
  intro assertion
  exact endsLine_assertionSegments assertion.1 assertion.2

theorem endsLine_suiteSegments (name : String) (cases : SuiteResults) :
    Segment.EndsLine (suiteSegments name cases) := by
  have hname : Segment.EndsLine [.plain ("Test Suite: " ++ name ++ "\n")] := .inr ⟨[], _, rfl⟩
  apply hname.append
  apply Segment.endsLine_flatMap
  intro testCase
  exact endsLine_caseSegments testCase.1 testCase.2

theorem endsLine_bodySegments (results : ResultSet) :
    Segment.EndsLine (bodySegments results) := by
  apply Segment.endsLine_flatMap
  intro suite
  exact endsLine_suiteSegments suite.1 suite.2

def joinedSegments (results : ResultSet) : List Segment :=
  Segment.joinPlain "" (bodySegments results ++ [footer results.tally])

theorem summaryBytes_eq (coloured : Bool) (results : ResultSet) :
    summaryBytes coloured results = (joinedSegments results).flatMap (Segment.bytes coloured) := by
  rw [joinedSegments, Segment.bytes_joinPlain]
  rfl

theorem statuses_joinedSegments (results : ResultSet) :
    Segment.statuses (joinedSegments results) = Segment.statuses (bodySegments results) := by
  rw [joinedSegments, Segment.statuses_joinPlain, Segment.statuses, List.filterMap_append]
  exact List.append_nil _

/-- The bytes that writing a summary passes on to a sink without bounds. -/
theorem run_writeSummary_joined (results : ResultSet) {coloured : Bool}
    {shown : Segment → String}
    (h : ∀ segment, Segment.bytes coloured segment = Text.bytes (shown segment).toList) :
    (writeSummary results).run (.unbounded coloured) = (.ok results.tally, .passedOn coloured
      (Text.bytes ((joinedSegments results).flatMap fun s => (shown s).toList))) := by
  have hbytes : Segment.bytes coloured = fun segment => Text.bytes (shown segment).toList :=
    funext h
  rw [run_writeSummary_unbounded, summaryBytes_eq, hbytes, Text.bytes, List.flatMap_assoc]
  rfl

/-- There is a row of plain texts and status words in turn that is written as it is without
colour, and with each word between escape sequences where there is colour. It has a word
for each result and a word of failure for each failure. Both numbers are what writing gives,
and what the last line says. -/
theorem writeSummary_highlights (results : ResultSet) : ∃ segments,
    Segment.Alternates segments ∧
      (writeSummary results).run (.unbounded false) = (.ok results.tally,
        .passedOn false (Text.bytes (segments.flatMap fun s => s.unstyled.toList))) ∧
      (writeSummary results).run (.unbounded true) = (.ok results.tally,
        .passedOn true (Text.bytes (segments.flatMap fun s => s.highlighted.toList))) ∧
      (Segment.statuses segments).length = results.tally.total ∧
      (Segment.statuses segments).count false = results.tally.failures ∧
      ∃ before, (before = "" ∨ ∃ line, before = line ++ "\n") ∧
        segments.getLast? = some (.plain (before ++ (toString results.tally.total ++
          " tests run, " ++ toString results.tally.failures ++ " tests failed, " ++
            results.tally.percentText ++ "% Passing\n"))) := by
  have htally := statusTally_bodySegments results
  rw [← statuses_joinedSegments] at htally
  refine ⟨joinedSegments results, Segment.alternates_joinPlain _ _,
    run_writeSummary_joined results Segment.bytes_false,
    run_writeSummary_joined results Segment.bytes_true, ?_, ?_, ?_⟩
  · exact congrArg Tally.total htally
  · exact congrArg Tally.failures htally
  · exact (endsLine_bodySegments results).getLast?_joinPlain _

end Console
end FirmwareTests
