import FirmwareTests.Proofs.Markup.Truncation
import FirmwareTests.Proofs.Reports.Outline
import FirmwareTests.Proofs.Reports.TreeReading

/-!
# Truncated reports

A report that is cut off before its first element ends is neither read nor retitled,
wherever the cut is: an element is still open then, or none has begun, or the cut itself
is a fault.
-/

namespace FirmwareTests
namespace Reports

open Markup Text

theorem exists_error_of_toOption {ε α : Type} {x : Except ε α} (h : x.toOption = none) :
    ∃ error, x = .error error := by
  cases x with
  | error error => exact ⟨error, rfl⟩
  | ok a => cases h

theorem not_lacksElement_of_parse {document : List Char} {report : Report}
    (h : Report.parse document = .ok report) :
    ¬ LacksElement 0 ((read document).tokens.map Located.token) := by
  obtain ⟨ts, b, hread, hfold, hdepth, hreport⟩ := parse_eq_ok_iff.mp h
  rw [hread]
  rintro (hopen | ⟨-, htagless⟩)
  · have hdepth' := Builder.depth_foldlM_next? hfold
    rw [hdepth] at hdepth'
    exact Nat.ne_of_gt hopen hdepth'.symm
  · rw [Builder.foldlM_next?_of_tagless rfl htagless] at hfold
    cases hfold
    cases hreport

theorem exists_rootEnd?_of_parse {document : List Char} {report : Report}
    (h : Report.parse document = .ok report) : ∃ stop, rootEnd? document = some stop := by
  cases hstop : topEndFrom? 0 0 (read document).tokens with
  | some stop => exact ⟨_, congrArg (Option.map _) hstop⟩
  | none => exact absurd (lacksElement_of_topEndFrom? hstop) (not_lacksElement_of_parse h)

theorem exists_parse_eq_error {document : List Char}
    (h : (read document).ending = .complete →
      LacksElement 0 ((read document).tokens.map Located.token)) :
    ∃ error, Report.parse document = .error error := by
  cases hparse : Report.parse document with
  | error error => exact ⟨error, rfl⟩
  | ok report =>
    have hending := (parse_eq_ok_iff_ofElements?.mp hparse).1
    exact absurd (h hending) (not_lacksElement_of_parse hparse)

theorem exists_retitle_eq_error {document : List Char}
    (h : (read document).ending = .complete →
      LacksElement 0 ((read document).tokens.map Located.token)) (title : List Char) :
    ∃ error, retitle title document = .error error := by
  apply exists_error_of_toOption
  rw [toOption_retitle, Option.map_eq_none_iff, Option.eq_none_iff_forall_ne_some]
  intro o ho
  obtain ⟨ts, tag, hread, hclosed, hsplits⟩ := Outline.ofDocument?_eq_some_iff.mp ho
  rw [hread] at h
  rcases h rfl with hopen | ⟨-, htagless⟩
  · exact absurd hclosed (Nat.ne_of_gt hopen)
  · have hroot : o.root ∈ ts.map Located.token := by
      rw [← hsplits.tokens]
      exact List.mem_append_right _ List.mem_cons_self
    have hnone := htagless _ hroot
    rw [hsplits.rootTag] at hnone
    cases hnone

/-- A report that is cut off at or before the ending of its first element is neither read nor
retitled. -/
theorem parse_truncated {document : List Char} {report : Report}
    (h : Report.parse document = .ok report) :
    ∃ before after, document = before ++ after ∧ rootEnd? document = some (byteLength before) ∧
      (['<', '/'] <+: after ∨ ['>'] <+: after) ∧
        ∀ front title, front <+: document → byteLength front ≤ byteLength before →
          (∃ error, Report.parse front = .error error) ∧
            ∃ error, retitle title front = .error error := by
  obtain ⟨ts, -, hread, -⟩ := parse_eq_ok_iff.mp h
  obtain ⟨stop, hstop⟩ := exists_rootEnd?_of_parse h
  obtain ⟨before, after, hdocument, rfl, hafter⟩ := exists_split_of_rootEnd? hread hstop
  refine ⟨before, after, hdocument, hstop, hafter, ?_⟩
  intro front title hfront hle
  have hlacks := lacksElement_read_of_cut hread hstop hfront hle
  exact ⟨exists_parse_eq_error hlacks, exists_retitle_eq_error hlacks title⟩

/-- A mark, a bracket inside quotes, an element of the same name, and an end tag without its
bracket. -/
theorem parse_truncated_nested : ∃ report,
    Report.parse "\uFEFF<r x='>'><r></r><!--</r>--></r".toList = .ok report ∧
      ∃ before after, "\uFEFF<r x='>'><r></r><!--</r>--></r".toList = before ++ after ∧
        rootEnd? "\uFEFF<r x='>'><r></r><!--</r>--></r".toList = some (byteLength before) ∧
          (['<', '/'] <+: after ∨ ['>'] <+: after) ∧
            ∀ front title, front <+: "\uFEFF<r x='>'><r></r><!--</r>--></r".toList →
              byteLength front ≤ byteLength before →
                (∃ error, Report.parse front = .error error) ∧
                  ∃ error, retitle title front = .error error := by
  have h : (Report.parse "\uFEFF<r x='>'><r></r><!--</r>--></r".toList).toOption.isSome := by
    decide +kernel
  obtain ⟨report, hreport⟩ := Option.isSome_iff_exists.mp h
  rw [toOption_eq_some_iff] at hreport
  exact ⟨report, hreport, parse_truncated hreport⟩

end Reports
end FirmwareTests
