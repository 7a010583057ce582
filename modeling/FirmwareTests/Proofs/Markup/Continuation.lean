import FirmwareTests.Proofs.Markup.Forest
import FirmwareTests.Proofs.Markup.Rereading

/-!
# Documents that go on

What has been scanned of a document stays as it is when more is written behind it, but
for an end tag that the end of the document has cut off: it takes in what follows up to
the next bracket.
-/

namespace FirmwareTests
namespace Markup

open Text

def Reading.prepend (ts : List Located) (r : Reading) : Reading :=
  ⟨ts ++ r.tokens, r.ending⟩

/-- How the scanning of a document goes on behind its last token: there, or before the
bracket of markup that is cut off. -/
inductive Continues (position : Nat) (cs : List Char) (front : List Located) (last : Located) :
    Prop
  | whole : (∀ more, scan position (cs ++ more) =
      (scan last.position more).prepend (front ++ [last])) → Continues position cs front last
  | cut {body written : List Char} : cs = body ++ '<' :: written →
      Unfinished last.token written →
      (∀ more, scan position (body ++ '<' :: more) =
        (scan (position + byteLength body) ('<' :: more)).prepend front) →
      Continues position cs front last

theorem eq_nil_of_byteLength_eq_zero {cs : List Char} (h : byteLength cs = 0) : cs = [] := by
  cases cs with
  | nil => rfl
  | cons c cs =>
    have hc := Char.utf8Size_pos c
    rw [byteLength_cons] at h
    omega

theorem eq_or_of_cons_eq_append {t last : Located} {ts front : List Located}
    (h : t :: ts = front ++ [last]) :
    (ts = [] ∧ front = [] ∧ t = last) ∨ ∃ front', front = t :: front' ∧ ts = front' ++ [last] := by
  cases front with
  | nil =>
    obtain ⟨rfl, rfl⟩ := List.cons.inj h
    exact .inl ⟨rfl, rfl, rfl⟩
  | cons u front =>
    obtain ⟨rfl, rfl⟩ := List.cons.inj h
    exact .inr ⟨front, rfl, rfl⟩

theorem Continues.cons_text {position : Nat} {raw cs : List Char} {front : List Located}
    {last : Located} (hne : raw ≠ []) (hnot : '<' ∉ raw)
    (h : Continues (position + byteLength raw) ('<' :: cs) front last) :
    Continues position (raw ++ '<' :: cs) (⟨.text raw, position + byteLength raw⟩ :: front) last := by
  cases h with
  | whole hscan =>
    refine .whole fun more => ?_
    have h := hscan more
    rw [List.cons_append] at h
    rw [List.append_assoc, List.cons_append, scan_text hne hnot, h]
    rfl
  | @cut body written hcs hunfinished hscan =>
    have hwhole : raw ++ '<' :: cs = (raw ++ body) ++ '<' :: written := by
      rw [hcs, List.append_assoc]
    refine .cut hwhole hunfinished ?_
    intro more
    have h := hscan more
    -- what stands between the text and the cut begins with a bracket too
    obtain ⟨rest, hrest⟩ : ∃ rest, body ++ '<' :: more = '<' :: rest := by
      cases body with
      | nil => exact ⟨more, rfl⟩
      | cons c body =>
        obtain ⟨rfl, -⟩ := List.cons.inj hcs
        exact ⟨_, rfl⟩
    rw [List.append_assoc, hrest, scan_text hne hnot, ← hrest, h, byteLength_append,
      Nat.add_assoc]
    rfl

theorem Continues.cons_markup {position : Nat} {token : Token} {written cs : List Char}
    {front : List Located} {last : Located} (hspells : Spells token written)
    (h : Continues (position + 1 + byteLength written) cs front last) :
    Continues position ('<' :: (written ++ cs))
      (⟨token, position + 1 + byteLength written⟩ :: front) last := by
  have hbracket : '<'.utf8Size = 1 := rfl
  cases h with
  | whole hscan =>
    refine .whole fun more => ?_
    rw [List.cons_append, List.append_assoc, scan_markup hspells, hscan more]
    rfl
  | @cut body written' hcs hunfinished hscan =>
    have hwhole : '<' :: (written ++ cs) = ('<' :: (written ++ body)) ++ '<' :: written' := by
      simp [hcs]
    refine .cut hwhole hunfinished ?_
    intro more
    rw [List.cons_append, List.append_assoc, scan_markup hspells, hscan more, byteLength_cons,
      byteLength_append, hbracket]
    simp only [Nat.add_assoc]
    rfl

/-- A document whose last token stands at its end, and is no text, can go on. -/
theorem continues_of_scans {position : Nat} {cs : List Char} {ts : List Located}
    (h : Scans position cs ts) {front : List Located} {last : Located}
    (hts : ts = front ++ [last]) (hend : last.position = position + byteLength cs)
    (htext : last.token.isText = false) : Continues position cs front last := by
  have hbracket : '<'.utf8Size = 1 := rfl
  induction h generalizing front with
  | nil | bracket => simp at hts
  | lastText =>
    rcases eq_or_of_cons_eq_append hts with ⟨-, -, rfl⟩ | ⟨front', -, hnil⟩
    · cases htext
    · simp at hnil
  | text hne hnot _ ih =>
    rcases eq_or_of_cons_eq_append hts with ⟨-, -, rfl⟩ | ⟨front', rfl, hts'⟩
    · cases htext
    · rw [byteLength_append] at hend
      exact (ih hts' (by rw [hend, Nat.add_assoc])).cons_text hne hnot
  | unfinished hunfinished =>
    rcases eq_or_of_cons_eq_append hts with ⟨-, rfl, rfl⟩ | ⟨front', -, hnil⟩
    · exact .cut (List.nil_append _).symm hunfinished fun more => rfl
    · simp at hnil
  | @markup position token written cs ts hspells _ ih =>
    rw [byteLength_cons, byteLength_append, hbracket] at hend
    rcases eq_or_of_cons_eq_append hts with ⟨rfl, rfl, rfl⟩ | ⟨front', rfl, hts'⟩
    · obtain rfl : cs = [] := by
        apply eq_nil_of_byteLength_eq_zero
        dsimp only at hend
        omega
      refine .whole fun more => ?_
      rw [List.append_nil, List.cons_append, scan_markup hspells]
      rfl
    · exact (ih hts' (by omega)).cons_markup hspells

/-! ### The token at the end -/

def Token.Alike (t u : Token) : Prop :=
  t = u ∨ ∃ a b, t = .close a ∧ u = .close b

/-- An end tag that was cut off is still an end tag when more follows. -/
theorem exists_scan_cut {token : Token} {written : List Char} (h : Unfinished token written)
    (hleaf : token.isLeaf = false) (position : Nat) (more : List Char) :
    ∃ r t, scan position ('<' :: (written ++ more)) = Reading.cons t r ∧
      token.Alike t.token := by
  cases h with
  | instruction => cases hleaf
  | @close text hnot =>
    rcases exists_split_or_notMem '>' more with ⟨before, rest, hbefore, rfl⟩ | hmore
    · have hname : '>' ∉ text ++ before := by simp [hnot, hbefore]
      have hwritten : '/' :: text ++ (before ++ '>' :: rest) =
          '/' :: ((text ++ before) ++ ['>']) ++ rest := by simp
      rw [hwritten, scan_markup (.close hname)]
      exact ⟨_, _, rfl, .inr ⟨_, _, rfl, rfl⟩⟩
    · have hname : '>' ∉ text ++ more := by simp [hnot, hmore]
      rw [List.cons_append, scan_unfinished (.close hname)]
      exact ⟨⟨[], .complete⟩, _, rfl, .inr ⟨_, _, rfl, rfl⟩⟩

/-- When more is written behind the last tag of a document, the tokens before that tag
stay, and so does the tag but for the text of an end tag. -/
theorem tokens_append {document more : List Char} {front ts : List Located} {last : Located}
    (hread : read document = ⟨front ++ [last], .complete⟩) (hleaf : last.token.isLeaf = false)
    (hend : last.position = byteLength (dropByteOrderMark document))
    (happend : read (document ++ more) = ⟨ts, .complete⟩) :
    ∃ t us, ts = front ++ t :: us ∧ last.token.Alike t.token := by
  have hscans := (read_eq_complete_iff.mp hread).1
  have hne : document ≠ [] := by
    rintro rfl
    have h := congrArg Reading.tokens (scan_eq_of_scans hscans)
    rw [show dropByteOrderMark [] = [] from rfl, scan_nil] at h
    simp at h
  have hscan := scan_eq_of_scans (read_eq_complete_iff.mp happend).1
  rw [dropByteOrderMark_append hne] at hscan
  have htext : last.token.isText = false := by
    cases htoken : last.token with
    | text raw =>
      rw [htoken] at hleaf
      cases hleaf
    | _ => rfl
  cases continues_of_scans hscans rfl (by rw [hend, Nat.zero_add]) htext with
  | whole hwhole =>
    rw [hwhole more] at hscan
    have htokens : ts = _ := (congrArg Reading.tokens hscan).symm
    refine ⟨last, (scan last.position more).tokens, ?_, .inl rfl⟩
    rw [htokens, Reading.prepend, List.append_assoc, List.singleton_append]
  | @cut body written hcs hunfinished hcut =>
    obtain ⟨r, t, hrest, halike⟩ :=
      exists_scan_cut hunfinished hleaf (0 + byteLength body) more
    rw [hcs, List.append_assoc, List.cons_append, hcut, hrest] at hscan
    have htokens : ts = _ := (congrArg Reading.tokens hscan).symm
    exact ⟨t, r.tokens, htokens, halike⟩

theorem Token.Alike.depthAfter {t u : Token} (h : t.Alike u) (depth : Nat) :
    t.depthAfter depth = u.depthAfter depth := by
  rcases h with rfl | ⟨a, b, rfl, rfl⟩ <;> rfl

/-- The text of an end tag does not matter to the forest. -/
theorem levels_append_alike {t u : Token} (h : t.Alike u) (front back : List Token) :
    Forest.levels (front ++ t :: back) = Forest.levels (front ++ u :: back) := by
  rcases h with rfl | ⟨a, b, rfl, rfl⟩
  · rfl
  · induction front with
    | nil => rfl
    | cons v front ih => simp only [List.cons_append, Forest.levels, ih]

end Markup
end FirmwareTests
