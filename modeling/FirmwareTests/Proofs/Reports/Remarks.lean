import FirmwareTests.Proofs.Markup.Escaping
import FirmwareTests.Proofs.Markup.Remarks
import FirmwareTests.Proofs.Reports.Progress

/-!
# Reports without a remark

Comments and instructions do not show in a report: wherever one of them is taken out of a
document, the same report is read of what is left. The text of a failure is put together
out of the pieces between its remarks.
-/

namespace FirmwareTests
namespace Reports

open Markup Text

namespace Builder

theorem next?_remark (b : Builder) {t : Token} (h : t.isRemark = true) : b.next? t = some b := by
  cases t with
  | comment | instruction => rfl
  | _ => cases h

/-- A text belongs to the failure that is open, if one is, and else to nothing. -/
theorem next?_text (b : Builder) (raw : List Char) : b.next? (.text raw) =
    match b.openFailure? with
    | none => some b
    | some (pending, text) => (unescape raw).toOption.map fun more =>
        b.appendFailure pending (text ++ more) := by
  unfold next? step
  dsimp only
  cases b.openFailure? with
  | none => rfl
  | some failure =>
    dsimp only
    cases unescape raw <;> rfl

theorem openFailure?_appendFailure {b : Builder} {pending : Pending} {text : List Char}
    (h : b.openFailure? = some (pending, text)) (more : List Char) :
    (b.appendFailure pending more).openFailure? =
      some ({ pending with failure := some more }, more) := by
  unfold openFailure? at h ⊢
  split at h
  · next hfailure => exact if_pos hfailure
  · cases h

/-- Two texts that are read one after the other are read as one. -/
theorem next?_text_append {b b' b'' : Builder} {raw more : List Char}
    (h : b.next? (.text raw) = some b') (h' : b'.next? (.text more) = some b'') :
    b.next? (.text (raw ++ more)) = some b'' := by
  rw [next?_text] at h h' ⊢
  cases hfailure : b.openFailure? with
  | none =>
    rw [hfailure] at h
    cases h
    rw [hfailure] at h'
    exact h'
  | some failure =>
    obtain ⟨pending, text⟩ := failure
    rw [hfailure] at h
    obtain ⟨first, hfirst, rfl⟩ := Option.map_eq_some_iff.mp h
    rw [openFailure?_appendFailure hfailure] at h'
    obtain ⟨second, hsecond, rfl⟩ := Option.map_eq_some_iff.mp h'
    rw [toOption_eq_some_iff] at hfirst hsecond
    have hwhole : unescape (raw ++ more) = .ok (first ++ second) :=
      ((unescapes_of_unescapeFrom hfirst).append
        (unescapes_of_unescapeFrom hsecond)).unescapeFrom_eq 0
    simp [hwhole, appendFailure]

theorem foldlM_next?_dropMark (ts : List Token) :
    (dropMark ts).foldlM next? initial = ts.foldlM next? initial := by
  have htext (raw : List Char) (ts : List Token) :
      (Token.text raw :: ts).foldlM next? initial = ts.foldlM next? initial := by
    rw [List.foldlM_cons, next?_of_tagless rfl rfl]
    rfl
  unfold dropMark
  split
  · split
    · rw [htext]
    · rw [htext, htext]
  · rfl

end Builder

/-- The report of a document does not change when a comment, an instruction or an XML
declaration that is read of it is taken out, wherever it stands. -/
theorem parse_without_remark {document : List Char} {report : Report}
    {before after : List Located} {t : Located} (h : Report.parse document = .ok report)
    (hread : (read document).tokens = before ++ t :: after)
    (hremark : t.token.isRemark = true) :
    ∃ front written back, document = front ++ (written ++ back) ∧
      byteLength front = markLength document + positionAfter 0 before ∧
        byteLength (front ++ written) = markLength document + t.position ∧
          (written = t.token.render ∨ written ++ ['>'] = t.token.render ∧ back = []) ∧
            Report.parse (front ++ back) = .ok report := by
  obtain ⟨ts, b, hcomplete, hfold, hdepth, hreport⟩ := parse_eq_ok_iff.mp h
  rw [hcomplete] at hread
  subst hread
  obtain ⟨front, written, back, hdocument, hstart, hstop, hwritten, us, row, hread', hrow,
    hjoins⟩ := exists_read_without_remark hcomplete hremark
  rw [List.map_append, List.map_cons,
    foldlM_idle (fun b => Builder.next?_remark b hremark), ← List.map_append] at hfold
  have hrow' : row.foldlM Builder.next? .initial = some b := by
    rcases hrow with rfl | rfl
    · exact hfold
    · rw [Builder.foldlM_next?_dropMark]
      exact hfold
  have hfold' := hjoins.foldlM_eq_some Builder.next?_text_append hrow'
  exact ⟨front, written, back, hdocument, hstart, hstop, hwritten,
    parse_eq_ok_iff.mpr ⟨us, b, hread', hfold', hdepth, hreport⟩⟩

/-- A comment in the text of a failure, behind an entity and with an ampersand of its own. -/
theorem parse_without_remark_inFailure :
    let document := ("\uFEFF<r><testcase name='a.b.c'><failure>x&amp;<!--&-->;</failure>" ++
      "</testcase></r>").toList
    ∃ report, Report.parse document = .ok report ∧
      ∃ front written back, document = front ++ (written ++ back) ∧ byteLength front = 44 ∧
        byteLength (front ++ written) = 52 ∧
          (written = "<!--&-->".toList ∨ written ++ ['>'] = "<!--&-->".toList ∧ back = []) ∧
            Report.parse (front ++ back) = .ok report := by
  intro document
  have hparse : (Report.parse document).toOption.isSome := by
    decide +kernel
  obtain ⟨report, hreport⟩ := Option.isSome_iff_exists.mp hparse
  rw [toOption_eq_some_iff] at hreport
  have hread : (read document).tokens = (read document).tokens.take 4 ++
      ⟨.comment ['&'], 49⟩ :: (read document).tokens.drop 5 := by
    decide +kernel
  have hstart : markLength document + positionAfter 0 ((read document).tokens.take 4) = 44 := by
    decide +kernel
  have hstop : markLength document + 49 = 52 := by
    decide +kernel
  have hrender : (Token.comment ['&']).render = "<!--&-->".toList := by
    decide +kernel
  have h := parse_without_remark hreport hread rfl
  rw [hstart, hstop, hrender] at h
  exact ⟨report, hreport, h⟩

end Reports
end FirmwareTests
