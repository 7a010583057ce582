import FirmwareTests.Proofs.Reports.Counts

/-!
# Test names read and written

A text is the name of a test when it has two dots, and writing the name gives the text back.
The other way round, a name is read back from what is written exactly when no part of it has
a dot, so no two such names are written alike.
-/

namespace FirmwareTests
namespace Text

/-- The segments of a text with the separators between them are the text. -/
theorem intercalate_segments (separator : Char) (cs : List Char) :
    List.intercalate [separator] (segments separator cs) = cs := by
  induction cs with
  | nil => rfl
  | cons c cs ih =>
    cases hsegments : segments separator cs with
    | nil => exact absurd hsegments (segments_ne_nil separator cs)
    | cons s ss =>
      rw [hsegments] at ih
      by_cases hc : c = separator
      · rw [segments, if_pos hc, hsegments, List.intercalate_cons_cons, ih, hc]
        rfl
      · rw [segments, if_neg hc, hsegments]
        dsimp only
        cases ss with
        | nil =>
          rw [List.intercalate_singleton] at ih ⊢
          rw [ih]
        | cons s' ss =>
          rw [List.intercalate_cons_cons] at ih ⊢
          rw [List.cons_append, List.cons_append, ih]

end Text

namespace Reports
namespace TestName

theorem toList_display (n : TestName) : n.display.toList =
    List.intercalate ['.'] [n.suite.toList, n.testCase.toList, n.assertion.toList] := by
  simp [display, List.intercalate_cons_cons]

/-- A text that is read as a name is what is written for it. -/
theorem display_of_parse {s : String} {n : TestName} (h : parse s.toList = .ok n) :
    n.display = s := by
  unfold parse at h
  split at h
  · next suite testCase assertion hsegments =>
    cases h
    apply String.toList_inj.mp
    rw [toList_display]
    simp only [String.toList_ofList]
    rw [← hsegments, Text.intercalate_segments]
  · cases h

theorem exists_parse_of_count {s : List Char} (h : s.count '.' = 2) :
    ∃ n, parse s = .ok n := by
  have hlength := Text.length_segments '.' s
  rw [h] at hlength
  obtain ⟨suite, testCase, assertion, hsegments⟩ := List.length_eq_three.mp hlength
  rw [parse, hsegments]
  exact ⟨_, rfl⟩

theorem parse_of_count_ne {s : List Char} (h : s.count '.' ≠ 2) :
    parse s = .error ⟨String.ofList s, s.count '.' + 1⟩ := by
  have hlength := Text.length_segments '.' s
  unfold parse
  split
  · next hsegments =>
    rw [hsegments] at hlength
    simp only [List.length_cons, List.length_nil] at hlength
    omega
  · rw [hlength]

theorem exists_parse_iff {s : List Char} : (∃ n, parse s = .ok n) ↔ s.count '.' = 2 := by
  constructor
  · rintro ⟨n, h⟩
    by_contra hcount
    rw [parse_of_count_ne hcount] at h
    cases h
  · exact exists_parse_of_count

/-- What is written for a name has two dots and those of its parts. -/
theorem count_display_iff (n : TestName) : n.display.toList.count '.' = 2 ↔ n.DotFree := by
  have hcount : n.display.toList.count '.' = n.suite.toList.count '.' +
      n.testCase.toList.count '.' + n.assertion.toList.count '.' + 2 := by
    simp only [toList_display, List.intercalate_cons_cons, List.intercalate_singleton,
      List.count_append, List.count_singleton_self]
    omega
  rw [hcount]
  constructor
  · intro h
    constructor <;> rw [← List.count_eq_zero] <;> omega
  · intro h
    rw [List.count_eq_zero.mpr h.suite, List.count_eq_zero.mpr h.testCase,
      List.count_eq_zero.mpr h.assertion]

/-- A text is read as a name when it has two dots, and is what is written for that name; the
error of any other text has the text and the number of its segments. A name is read back from
what is written for it when its parts have no dots, and only then; otherwise reading fails. So
different names without dots in their parts are written differently. -/
theorem parse_inverts_display :
    (∀ s : String,
      ((∃ n, parse s.toList = .ok n) ↔ s.toList.count '.' = 2) ∧
      (∀ n, parse s.toList = .ok n → n.display = s) ∧
      ∀ error, parse s.toList = .error error → error = ⟨s, 1 + s.toList.count '.'⟩) ∧
    (∀ n : TestName,
      (parse n.display.toList = .ok n ↔ n.DotFree) ∧
      (¬n.DotFree → ∃ error, parse n.display.toList = .error error)) ∧
    ∀ m n : TestName, m.DotFree → n.DotFree → m.display = n.display → m = n := by
  refine ⟨?_, ?_, ?_⟩
  · intro s
    refine ⟨exists_parse_iff, fun n => display_of_parse, ?_⟩
    intro error herror
    have hcount : s.toList.count '.' ≠ 2 := by
      intro hcount
      obtain ⟨n, hn⟩ := exists_parse_of_count hcount
      cases herror.symm.trans hn
    cases herror.symm.trans (parse_of_count_ne hcount)
    rw [String.ofList_toList, Nat.add_comm]
  · intro n
    refine ⟨⟨dotFree_of_parse, parse_display⟩, ?_⟩
    intro hdots
    exact ⟨_, parse_of_count_ne ((count_display_iff n).not.mpr hdots)⟩
  · intro m n hm hn h
    have hread := parse_display hm
    rw [h, parse_display hn] at hread
    exact (Except.ok.inj hread).symm

/-- Two dots with nothing around them are a name, and a fourth segment is an error, also when
it comes from a dot inside a part. Where the empty part stands makes a difference. -/
theorem parse_inverts_display_samples :
    parse "..".toList = .ok ⟨"", "", ""⟩ ∧ display ⟨"", "", ""⟩ = ".." ∧
      parse "s.c.a.é".toList = .error ⟨"s.c.a.é", 4⟩ ∧
        4 = 1 + "s.c.a.é".toList.count '.' ∧
          (∃ error, parse (display ⟨"s", "c.a", "é"⟩).toList = .error error) ∧
            display ⟨"s", "", "é"⟩ ≠ display ⟨"s", "é", ""⟩ := by
  obtain ⟨hread, hwritten, hinjective⟩ := parse_inverts_display
  have hempty : parse "..".toList = .ok ⟨"", "", ""⟩ := by decide +kernel
  have hlong : parse "s.c.a.é".toList = .error ⟨"s.c.a.é", 4⟩ := by decide +kernel
  have hparts := congrArg TestNameError.parts ((hread "s.c.a.é").2.2 _ hlong)
  have hdots : ¬DotFree ⟨"s", "c.a", "é"⟩ := fun h => h.testCase (by decide)
  refine ⟨hempty, (hread "..").2.1 _ hempty, hlong, hparts, (hwritten _).2 hdots, ?_⟩
  intro h
  have hmiddle : DotFree ⟨"s", "", "é"⟩ := ⟨by decide, by decide, by decide⟩
  have hlast : DotFree ⟨"s", "é", ""⟩ := ⟨by decide, by decide, by decide⟩
  exact absurd (hinjective _ _ hmiddle hlast h) (by decide)

end TestName
end Reports
end FirmwareTests
