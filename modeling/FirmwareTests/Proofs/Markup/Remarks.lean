import FirmwareTests.Proofs.Markup.Truncation

/-!
# Documents without a remark

Comments and instructions are remarks: they open and close no element. A document from
which one of them is taken out is scanned as before, but for the texts on its two sides,
which become one, and for a byte order mark behind it, which may have come to the front.
-/

namespace FirmwareTests
namespace Markup

open Text

def Token.isRemark : Token → Bool
  | comment _ => true
  | instruction _ => true
  | _ => false

theorem Token.isText_of_isRemark {t : Token} (h : t.isRemark = true) : t.isText = false := by
  cases t with
  | text raw => cases h
  | _ => rfl

theorem Token.namesAfter_of_isRemark {t : Token} (h : t.isRemark = true)
    (names : List (List Char)) : t.namesAfter names = some names := by
  cases t with
  | comment | instruction => rfl
  | _ => cases h

theorem Spells.eq_render {token : Token} {written : List Char} (h : Spells token written)
    (hremark : token.isRemark = true) : '<' :: written = token.render := by
  cases h with
  | close => cases hremark
  | instruction => rw [Token.render_instruction]
  | @tag text =>
    unfold tagToken at hremark
    split at hremark <;> cases hremark
  | @bang kind c text token hkind hwhole htoken =>
    cases kind with
    | comment =>
      obtain ⟨raw, rfl, htext⟩ := exists_eq_comment hwhole htoken
      have hwritten : c :: (text ++ ['>']) = (c :: text) ++ ['>'] := rfl
      rw [hwritten, htext, Token.render_comment]
      simp
    | cdata =>
      obtain ⟨_, -, rfl⟩ := BangKind.token_cdata_eq_ok_iff.mp htoken
      cases hremark
    | doctype =>
      obtain ⟨_, -, -, rfl⟩ := BangKind.token_doctype_eq_ok_iff.mp htoken
      cases hremark

/-- A remark that the end of the document cuts off lacks nothing but its last bracket. -/
theorem Unfinished.eq_render {token : Token} {written : List Char} (h : Unfinished token written)
    (hremark : token.isRemark = true) : '<' :: written ++ ['>'] = token.render := by
  cases h with
  | close => cases hremark
  | instruction => simp [Token.render_instruction]

/-! ### Pieces of a document -/

/-- The documents of the grammar with texts that may stand side by side. -/
inductive Pieces : List Char → List Token → Prop
  | nil : Pieces [] []
  | bracket : Pieces ['<'] []
  | text {raw cs : List Char} {ts : List Token} : raw ≠ [] → '<' ∉ raw → Pieces cs ts →
      Pieces (raw ++ cs) (.text raw :: ts)
  | unfinished {token : Token} {written : List Char} : Unfinished token written →
      Pieces ('<' :: written) [token]
  | markup {token : Token} {written cs : List Char} {ts : List Token} : Spells token written →
      Pieces cs ts → Pieces ('<' :: (written ++ cs)) (token :: ts)

/-- Rows of tokens, the second with some texts of the first that stand side by side made
into one. -/
inductive Joins : List Token → List Token → Prop
  | nil : Joins [] []
  | cons (t : Token) {ts us : List Token} : Joins ts us → Joins (t :: ts) (t :: us)
  | text (raw : List Char) {more : List Char} {ts us : List Token} :
      Joins ts (.text more :: us) → Joins (.text raw :: ts) (.text (raw ++ more) :: us)

theorem Scans.pieces {position : Nat} {cs : List Char} {ts : List Located}
    (h : Scans position cs ts) : Pieces cs (ts.map Located.token) := by
  induction h with
  | nil => exact .nil
  | bracket => exact .bracket
  | @lastText _ raw hne hnot =>
    have hpieces := Pieces.text hne hnot .nil
    rwa [List.append_nil] at hpieces
  | text hne hnot _ ih => exact .text hne hnot ih
  | unfinished h => exact .unfinished h
  | markup h _ ih => exact .markup h ih

/-- A text at the front joins the text that a document begins with, if it does. -/
theorem Scans.exists_text {position : Nat} {raw cs : List Char} {us : List Located}
    (hne : raw ≠ []) (hnot : '<' ∉ raw) (h : Scans (position + byteLength raw) cs us)
    {ts : List Token} (hjoins : Joins ts (us.map Located.token)) :
    ∃ vs, Scans position (raw ++ cs) vs ∧ Joins (.text raw :: ts) (vs.map Located.token) := by
  generalize hstart : position + byteLength raw = start at h
  cases h with
  | nil =>
    rw [List.append_nil]
    exact ⟨_, .lastText hne hnot, hjoins.cons _⟩
  | bracket =>
    exact ⟨_, .text hne hnot (.bracket _), hjoins.cons _⟩
  | lastText hne' hnot' =>
    exact ⟨_, .lastText (by simp [hne]) (by simp [hnot, hnot']), hjoins.text raw⟩
  | @text _ raw' cs' _ hne' hnot' hrest =>
    have hwhole : '<' ∉ raw ++ raw' := by simp [hnot, hnot']
    rw [← hstart, Nat.add_assoc, ← byteLength_append] at hrest
    rw [← List.append_assoc]
    exact ⟨_, .text (by simp [hne]) hwhole hrest, hjoins.text raw⟩
  | unfinished hunfinished =>
    exact ⟨_, .text hne hnot (.unfinished hunfinished), hjoins.cons _⟩
  | markup hspells hrest =>
    rw [← hstart] at hrest
    exact ⟨_, .text hne hnot (.markup hspells hrest), hjoins.cons _⟩

theorem Pieces.exists_scans {cs : List Char} {ts : List Token} (h : Pieces cs ts)
    (position : Nat) :
    ∃ us, Scans position cs us ∧ Joins ts (us.map Located.token) := by
  induction h generalizing position with
  | nil => exact ⟨_, .nil position, .nil⟩
  | bracket => exact ⟨_, .bracket position, .nil⟩
  | @text raw cs ts hne hnot _ ih =>
    obtain ⟨us, hscans, hjoins⟩ := ih (position + byteLength raw)
    exact hscans.exists_text hne hnot hjoins
  | unfinished h => exact ⟨_, .unfinished h, .cons _ .nil⟩
  | @markup token written cs ts hspells _ ih =>
    obtain ⟨us, hscans, hjoins⟩ := ih (position + 1 + byteLength written)
    exact ⟨_, .markup hspells hscans, hjoins.cons token⟩

theorem Pieces.dropMark {cs : List Char} {ts : List Token} (h : Pieces cs ts) :
    Pieces (dropByteOrderMark cs) (dropMark ts) := by
  cases h with
  | nil => exact .nil
  | bracket => exact .bracket
  | @text raw cs ts hne hnot hrest =>
    have hnot' : '<' ∉ dropByteOrderMark raw := fun hmem => hnot (mem_of_mem_dropByteOrderMark hmem)
    rw [dropByteOrderMark_append hne, Markup.dropMark]
    split
    · next hraw =>
      rw [hraw]
      exact hrest
    · next c cs hraw =>
      rw [hraw] at hnot' ⊢
      exact .text (List.cons_ne_nil c cs) hnot' hrest
  | unfinished h =>
    rw [dropByteOrderMark_cons_of_ne (by decide), dropMark_of_not_isText h.isText_eq_false]
    exact .unfinished h
  | markup h hrest =>
    rw [dropByteOrderMark_cons_of_ne (by decide), dropMark_of_not_isText h.isText_eq_false]
    exact .markup h hrest

/-! ### Steps along a row -/

section

variable {σ : Type} {f : σ → Token → Option σ}

theorem foldlM_idle {t : Token} (h : ∀ s, f s t = some s) (s : σ) (before after : List Token) :
    (before ++ t :: after).foldlM f s = (before ++ after).foldlM f s := by
  simp [h]

/-- Texts may be joined when two of them do what the one text does. -/
theorem Joins.foldlM_eq_some (htext : ∀ {s s' s'' : σ} {raw more : List Char},
      f s (.text raw) = some s' → f s' (.text more) = some s'' →
        f s (.text (raw ++ more)) = some s'')
    {ts us : List Token} (h : Joins ts us) {s last : σ} (hfold : ts.foldlM f s = some last) :
    us.foldlM f s = some last := by
  induction h generalizing s with
  | nil => exact hfold
  | cons t _ ih =>
    obtain ⟨s', hstep, hrest⟩ := Option.bind_eq_some_iff.mp hfold
    rw [List.foldlM_cons, hstep]
    exact ih hrest
  | text raw _ ih =>
    obtain ⟨s', hraw, hrest⟩ := Option.bind_eq_some_iff.mp hfold
    obtain ⟨s'', hmore, hus⟩ := Option.bind_eq_some_iff.mp (ih hrest)
    rw [List.foldlM_cons, htext hraw hmore]
    exact hus

end

theorem openNames_remark {t : Token} (h : t.isRemark = true) (names : List (List Char))
    (before after : List Token) :
    openNames names (before ++ t :: after) = openNames names (before ++ after) :=
  foldlM_idle (Token.namesAfter_of_isRemark h) names before after

theorem Joins.openNames_eq_some {ts us : List Token} (h : Joins ts us)
    {names after : List (List Char)} (hnames : openNames names ts = some after) :
    openNames names us = some after := by
  refine h.foldlM_eq_some ?_ hnames
  intro s s' s'' raw more hraw hmore
  cases hraw
  exact hmore

/-! ### Taking a token out -/

/-- The position after a row of tokens, given that before it. -/
def positionAfter (position : Nat) (ts : List Located) : Nat :=
  ts.foldl (fun _ t => t.position) position

/-- Markup stands between the tokens before it and the position after it, and what is
before it and behind it is left in pieces when it is taken out. -/
theorem exists_split_of_scans {position : Nat} {cs : List Char} {ts : List Located}
    (h : Scans position cs ts) {before after : List Located} {t : Located}
    (hts : ts = before ++ t :: after) (htext : t.token.isText = false) :
    ∃ front written back, cs = front ++ ('<' :: written ++ back) ∧
      position + byteLength front = positionAfter position before ∧
        position + byteLength (front ++ '<' :: written) = t.position ∧
          (Spells t.token written ∨ Unfinished t.token written ∧ back = []) ∧
            Pieces (front ++ back) ((before ++ after).map Located.token) := by
  have hbracket : '<'.utf8Size = 1 := rfl
  induction h generalizing before with
  | nil | bracket => simp at hts
  | lastText =>
    cases before with
    | nil =>
      obtain ⟨rfl, -⟩ := List.cons.inj hts
      cases htext
    | cons u before => simp at hts
  | @text position raw cs ts hne hnot _ ih =>
    cases before with
    | nil =>
      obtain ⟨rfl, -⟩ := List.cons.inj hts
      cases htext
    | cons u before =>
      obtain ⟨rfl, hrest⟩ := List.cons.inj hts
      obtain ⟨front, written, back, hcs, hstart, hstop, hspelled, hpieces⟩ := ih hrest
      refine ⟨raw ++ front, written, back, ?_, ?_, ?_, hspelled, ?_⟩
      · rw [hcs, List.append_assoc]
      · rw [byteLength_append, ← Nat.add_assoc]
        exact hstart
      · rw [List.append_assoc, byteLength_append, ← Nat.add_assoc]
        exact hstop
      · rw [List.append_assoc]
        exact .text hne hnot hpieces
  | @unfinished position token written hunfinished =>
    cases before with
    | nil =>
      obtain ⟨rfl, rfl⟩ := List.cons.inj hts
      refine ⟨[], written, [], ?_, rfl, ?_, .inr ⟨hunfinished, rfl⟩, .nil⟩
      · simp
      · simp [hbracket, Nat.add_assoc]
    | cons u before => simp at hts
  | @markup position token written cs ts hspells hscans ih =>
    cases before with
    | nil =>
      obtain ⟨rfl, rfl⟩ := List.cons.inj hts
      refine ⟨[], written, cs, rfl, rfl, ?_, .inl hspells, hscans.pieces⟩
      simp [hbracket, Nat.add_assoc]
    | cons u before =>
      obtain ⟨rfl, hrest⟩ := List.cons.inj hts
      obtain ⟨front, written', back, hcs, hstart, hstop, hspelled, hpieces⟩ := ih hrest
      refine ⟨'<' :: (written ++ front), written', back, ?_, ?_, ?_, hspelled, ?_⟩
      · rw [hcs]
        simp
      · rw [byteLength_cons, byteLength_append, hbracket, ← Nat.add_assoc, ← Nat.add_assoc]
        exact hstart
      · rw [List.cons_append, List.append_assoc, byteLength_cons, byteLength_append, hbracket,
          ← Nat.add_assoc, ← Nat.add_assoc]
        exact hstop
      · rw [List.cons_append, List.append_assoc]
        exact .markup hspells hpieces

/-- Pieces behind a byte order mark, or behind none, are scanned as they are, or without a
mark of their own. -/
theorem Pieces.exists_scans_mark {cs mark : List Char} {ts : List Token} (h : Pieces cs ts)
    (hmark : mark = [] ∨ mark = ['\uFEFF']) :
    ∃ us row, Scans 0 (dropByteOrderMark (mark ++ cs)) us ∧
      (row = ts ∨ row = Markup.dropMark ts) ∧ Joins row (us.map Located.token) := by
  rcases hmark with rfl | rfl
  · obtain ⟨us, hscans, hjoins⟩ := h.dropMark.exists_scans 0
    exact ⟨us, _, hscans, .inr rfl, hjoins⟩
  · obtain ⟨us, hscans, hjoins⟩ := h.exists_scans 0
    exact ⟨us, _, hscans, .inl rfl, hjoins⟩

/-- A document without one of its remarks is read as the other tokens, with texts joined and
perhaps without a byte order mark. -/
theorem exists_read_without_remark {document : List Char} {before after : List Located}
    {t : Located} (hread : read document = ⟨before ++ t :: after, .complete⟩)
    (hremark : t.token.isRemark = true) :
    ∃ front written back, document = front ++ (written ++ back) ∧
      byteLength front = markLength document + positionAfter 0 before ∧
        byteLength (front ++ written) = markLength document + t.position ∧
          (written = t.token.render ∨ written ++ ['>'] = t.token.render ∧ back = []) ∧
            ∃ us row, read (front ++ back) = ⟨us, .complete⟩ ∧
              (row = (before ++ after).map Located.token ∨
                row = dropMark ((before ++ after).map Located.token)) ∧
                  Joins row (us.map Located.token) := by
  obtain ⟨hscans, hnames⟩ := read_eq_complete_iff.mp hread
  obtain ⟨mark, hmark, hdocument, hlength⟩ := exists_mark document
  obtain ⟨front, spelling, back, hcs, hstart, hstop, hspelled, hpieces⟩ :=
    exists_split_of_scans hscans rfl (Token.isText_of_isRemark hremark)
  obtain ⟨us, row, hscans', hrow, hjoins⟩ := hpieces.exists_scans_mark hmark
  rw [← List.append_assoc] at hscans'
  obtain ⟨names, hnames⟩ := Option.isSome_iff_exists.mp hnames
  rw [List.map_append, List.map_cons, openNames_remark hremark, ← List.map_append] at hnames
  have hrow' : openNames [] row = some names := by
    rcases hrow with rfl | rfl
    · exact hnames
    · rw [openNames_dropMark]
      exact hnames
  have hnames' : (openNames [] (us.map Located.token)).isSome := by
    rw [hjoins.openNames_eq_some hrow']
    rfl
  refine ⟨mark ++ front, '<' :: spelling, back, ?_, ?_, ?_, ?_, us, row,
    read_eq_complete_iff.mpr ⟨hscans', hnames'⟩, hrow, hjoins⟩
  · rw [List.append_assoc, ← hcs]
    exact hdocument
  · rw [byteLength_append, hlength]
    omega
  · rw [List.append_assoc, byteLength_append, hlength]
    omega
  · rcases hspelled with hspells | ⟨hunfinished, hback⟩
    · exact .inl (hspells.eq_render hremark)
    · exact .inr ⟨hunfinished.eq_render hremark, hback⟩

end Markup
end FirmwareTests
