import FirmwareTests.Proofs.Markup.Continuation

/-!
# Documents that are cut off

A document may be cut off anywhere before its first element ends: in a text, inside
markup, or between tokens. What is left holds no whole element. A cut inside markup is a
fault, but for end tags and instructions, which need no bracket at the end of a document;
neither of them ends the first element.
-/

namespace FirmwareTests
namespace Markup

open Text

/-! ### The end of the first element -/

/-- Whether a token ends an element that stands at the top, given the number of elements
open before it. -/
def Token.endsTopElement (depth : Nat) : Token → Bool
  | empty _ => depth == 0
  | close _ => depth == 1
  | _ => false

/-- Where the ending of an element begins, given where its last token does: an end tag
from its opening bracket on, an empty tag with its closing bracket. -/
def endingStart (start : Nat) (t : Located) : Nat :=
  match t.token with
  | .empty _ => t.position - 1
  | _ => start

/-- Where the ending of the first top-level element begins, given where the next token
does and the number of open elements. -/
def topEndFrom? (start depth : Nat) : List Located → Option Nat
  | [] => none
  | t :: ts =>
    if t.token.endsTopElement depth then some (endingStart start t)
    else topEndFrom? t.position (t.token.depthAfter depth) ts

/-- The number of bytes of a byte order mark that reading drops. -/
def markLength (document : List Char) : Nat :=
  byteLength document - byteLength (dropByteOrderMark document)

theorem markLength_add (document : List Char) :
    markLength document + byteLength (dropByteOrderMark document) = byteLength document := by
  have hle : byteLength (dropByteOrderMark document) ≤ byteLength document := by
    unfold dropByteOrderMark
    split
    · exact Nat.le_add_left _ _
    · exact Nat.le_refl _
  exact Nat.sub_add_cancel hle

/-- A document is what is scanned of it behind its byte order mark, if it has one. -/
theorem exists_mark (document : List Char) : ∃ mark, (mark = [] ∨ mark = ['\uFEFF']) ∧
    document = mark ++ dropByteOrderMark document ∧ markLength document = byteLength mark := by
  obtain ⟨mark, hmark, hdocument⟩ : ∃ mark, (mark = [] ∨ mark = ['\uFEFF']) ∧
      document = mark ++ dropByteOrderMark document := by
    unfold dropByteOrderMark
    split
    · exact ⟨['\uFEFF'], .inr rfl, rfl⟩
    · exact ⟨[], .inl rfl, rfl⟩
  have hlength := congrArg byteLength hdocument
  have hadd := markLength_add document
  rw [byteLength_append] at hlength
  exact ⟨mark, hmark, hdocument, by omega⟩

/-- The byte offset at which the ending of the first element begins: that of the bracket
that opens its end tag, or that closes its empty tag. -/
def rootEnd? (document : List Char) : Option Nat :=
  (topEndFrom? 0 0 (read document).tokens).map (markLength document + ·)

section

variable {start depth : Nat} {t : Located} {ts : List Located}

theorem topEndFrom?_of_ends (h : t.token.endsTopElement depth = true) :
    topEndFrom? start depth (t :: ts) = some (endingStart start t) :=
  if_pos h

theorem topEndFrom?_of_not_ends (h : t.token.endsTopElement depth = false) :
    topEndFrom? start depth (t :: ts) =
      topEndFrom? t.position (t.token.depthAfter depth) ts := by
  rw [topEndFrom?, h]
  rfl

end

theorem endingStart_lt (start : Nat) (t : Token) (length : Nat) :
    endingStart start ⟨t, start + 1 + length⟩ < start + 1 + length := by
  unfold endingStart
  split
  · dsimp only
    omega
  · omega

/-! ### Rows without a whole element -/

/-- A row of tokens, begun inside the given number of elements, that ends inside an
element or has no tag. -/
def LacksElement (depth : Nat) (ts : List Token) : Prop :=
  0 < ts.foldl Token.depthAfter depth ∨ depth = 0 ∧ ∀ t ∈ ts, t.tag? = none

theorem lacksElement_nil (depth : Nat) : LacksElement depth [] := by
  cases depth with
  | zero => exact .inr ⟨rfl, by simp⟩
  | succ depth => exact .inl (Nat.succ_pos depth)

theorem LacksElement.cons {depth : Nat} {t : Token} {ts : List Token}
    (hends : t.endsTopElement depth = false) (h : LacksElement (t.depthAfter depth) ts) :
    LacksElement depth (t :: ts) := by
  rcases h with hopen | ⟨hdepth, htagless⟩
  · exact .inl hopen
  · right
    cases t with
    | start tag => simp [Token.depthAfter] at hdepth
    | empty tag =>
      obtain rfl : depth = 0 := hdepth
      cases hends
    | close tag =>
      have hdepth : depth - 1 = 0 := hdepth
      have hne : depth ≠ 1 := by simpa [Token.endsTopElement] using hends
      exact ⟨by omega, List.forall_mem_cons.mpr ⟨rfl, htagless⟩⟩
    | _ => exact ⟨hdepth, List.forall_mem_cons.mpr ⟨rfl, htagless⟩⟩

theorem lacksElement_singleton {depth : Nat} {t : Token}
    (hends : t.endsTopElement depth = false) : LacksElement depth [t] :=
  .cons hends (lacksElement_nil _)

theorem lacksElement_of_topEndFrom? {start depth : Nat} {ts : List Located}
    (h : topEndFrom? start depth ts = none) : LacksElement depth (ts.map Located.token) := by
  induction ts generalizing start depth with
  | nil => exact lacksElement_nil depth
  | cons t ts ih =>
    cases hends : t.token.endsTopElement depth with
    | true =>
      rw [topEndFrom?_of_ends hends] at h
      cases h
    | false =>
      rw [topEndFrom?_of_not_ends hends] at h
      exact .cons hends (ih h)

/-! ### Markup that is cut off -/

theorem Spells.eq_nil_of_append {token token' : Token} {written more : List Char}
    (h : Spells token written) (h' : Spells token' (written ++ more)) : more = [] := by
  have hread := readMarkup_of_spells h 0 more
  have hread' := readMarkup_of_spells h' 0 []
  rw [List.append_nil, hread, Except.ok.injEq, Lexeme.mk.injEq] at hread'
  exact hread'.2.2

theorem Spells.exists_close {token : Token} {written : List Char}
    (h : Spells token ('/' :: written)) : ∃ tag, token = .close tag := by
  generalize hslash : '/' :: written = spelling at h
  cases h with
  | close => exact ⟨_, rfl⟩
  | instruction | bang => exact absurd (List.cons.inj hslash).1 (by decide)
  | @tag text _ hhead =>
    cases text with
    | nil => exact absurd (List.cons.inj hslash).1 (by decide)
    | cons c text =>
      obtain ⟨rfl, -⟩ := List.cons.inj hslash
      exact absurd rfl (hhead _ rfl).2.1

/-- What is read of markup that is cut off: nothing of a lone bracket, or an end tag or an
instruction. An end tag is part of an end tag. -/
theorem scan_cut_markup {token : Token} {front back : List Char}
    (h : Spells token (front ++ back)) (hback : back ≠ []) {position : Nat}
    {us : List Located} (hscan : scan position ('<' :: front) = ⟨us, .complete⟩) :
    us = [] ∨ ∃ u, us = [u] ∧ ((∃ raw, u.token = .instruction raw) ∨
      (∃ tag, u.token = .close tag) ∧ ∃ tag, token = .close tag) := by
  have hscans := scans_of_scan hscan
  generalize hcs : '<' :: front = cs at hscans
  cases hscans with
  | nil => cases hcs
  | bracket => exact .inl rfl
  | lastText _ hnot =>
    subst hcs
    simp at hnot
  | @text _ raw _ _ hne hnot _ =>
    cases raw with
    | nil => exact absurd rfl hne
    | cons c raw =>
      obtain ⟨rfl, -⟩ := List.cons.inj hcs
      simp at hnot
  | unfinished hunfinished =>
    obtain ⟨-, rfl⟩ := List.cons.inj hcs
    refine .inr ⟨_, rfl, ?_⟩
    cases hunfinished with
    | close => exact .inr ⟨⟨_, rfl⟩, h.exists_close⟩
    | instruction => exact .inl ⟨_, rfl⟩
  | markup hspells _ =>
    obtain ⟨-, rfl⟩ := List.cons.inj hcs
    rw [List.append_assoc] at h
    exact absurd (List.append_eq_nil_iff.mp (hspells.eq_nil_of_append h)).2 hback

/-- Markup that is cut off ends no element, unless it is an end tag to begin with. -/
theorem lacksElement_cut_markup {token : Token} {front back : List Char}
    (h : Spells token (front ++ back)) (hback : back ≠ []) {depth : Nat}
    (hclose : ∀ tag, token = .close tag → token.endsTopElement depth = false) {position : Nat}
    (hcomplete : (scan position ('<' :: front)).ending = .complete) :
    LacksElement depth ((scan position ('<' :: front)).tokens.map Located.token) := by
  obtain ⟨us, hscan⟩ : ∃ us, scan position ('<' :: front) = ⟨us, .complete⟩ :=
    ⟨_, by rw [← hcomplete]⟩
  rw [hscan]
  rcases scan_cut_markup h hback hscan with rfl | ⟨u, rfl, ⟨raw, hraw⟩ | ⟨⟨tag, htag⟩, tag', htag'⟩⟩
  · exact lacksElement_nil depth
  · exact lacksElement_singleton (by rw [hraw]; rfl)
  · have hends := hclose tag' htag'
    rw [htag'] at hends
    exact lacksElement_singleton (by rw [htag]; exact hends)

theorem lacksElement_cut_text {front : List Char} (hnot : '<' ∉ front) (position depth : Nat) :
    LacksElement depth ((scan position front).tokens.map Located.token) := by
  by_cases hne : front = []
  · subst hne
    rw [scan_nil]
    exact lacksElement_nil depth
  · rw [scan_lastText hne hnot]
    exact lacksElement_singleton rfl

/-! ### Documents -/

/-- Two texts, one at the front of a whole and one that the whole begins with. -/
theorem eq_append_or_of_append_eq {front rest first second : List Char}
    (h : first ++ second = front ++ rest) :
    (∃ more, front = first ++ more ∧ second = more ++ rest) ∨
      ∃ back, back ≠ [] ∧ first = front ++ back := by
  rcases List.append_eq_append_iff.mp h with ⟨more, hfront, hsecond⟩ | ⟨back, hfirst, hrest⟩
  · exact .inl ⟨more, hfront, hsecond⟩
  · by_cases hback : back = []
    · subst hback
      exact .inl ⟨[], by simp [hfirst], by simpa using hrest.symm⟩
    · exact .inr ⟨back, hback, hfirst⟩

/-- A document that is cut off before its first element ends holds no whole element, if it
can be scanned at all. -/
theorem lacksElement_of_cut {position : Nat} {cs : List Char} {ts : List Located}
    (h : Scans position cs ts) {depth stop : Nat}
    (hstop : topEndFrom? position depth ts = some stop) {front rest : List Char}
    (hcs : cs = front ++ rest) (hle : position + byteLength front ≤ stop)
    (hcomplete : (scan position front).ending = .complete) :
    LacksElement depth ((scan position front).tokens.map Located.token) := by
  have hbracket : '<'.utf8Size = 1 := rfl
  induction h generalizing depth front with
  | nil | bracket => cases hstop
  | lastText =>
    rw [topEndFrom?_of_not_ends rfl] at hstop
    cases hstop
  | @text position raw cs ts hne hnot _ ih =>
    rcases eq_append_or_of_append_eq hcs with ⟨more, rfl, hmore⟩ | ⟨back, -, rfl⟩
    · cases more with
      | nil =>
        rw [List.append_nil]
        exact lacksElement_cut_text hnot position depth
      | cons c more =>
        obtain ⟨rfl, -⟩ := List.cons.inj hmore
        rw [topEndFrom?_of_not_ends rfl] at hstop
        rw [byteLength_append] at hle
        rw [scan_text hne hnot] at hcomplete ⊢
        exact .cons rfl (ih hstop hmore (by omega) hcomplete)
    · exact lacksElement_cut_text (fun hmem => hnot (List.mem_append_left _ hmem)) position depth
  | @unfinished position token written hunfinished =>
    cases hunfinished with
    | close =>
      cases hends : (Token.close _).endsTopElement depth with
      | true =>
        -- the cut is no later than the bracket that opens the end tag
        rw [topEndFrom?_of_ends hends] at hstop
        cases hstop
        have hfront : byteLength front = 0 := by
          simp only [endingStart] at hle
          omega
        obtain rfl := eq_nil_of_byteLength_eq_zero hfront
        rw [scan_nil]
        exact lacksElement_nil depth
      | false =>
        rw [topEndFrom?_of_not_ends hends] at hstop
        cases hstop
    | instruction =>
      rw [topEndFrom?_of_not_ends rfl] at hstop
      cases hstop
  | @markup position token written cs ts hspells _ ih =>
    cases front with
    | nil =>
      rw [scan_nil]
      exact lacksElement_nil depth
    | cons c front =>
      obtain ⟨rfl, hrest⟩ := List.cons.inj hcs
      rw [byteLength_cons, hbracket] at hle
      rcases eq_append_or_of_append_eq hrest with ⟨more, rfl, hmore⟩ | ⟨back, hback, rfl⟩
      · have hends : token.endsTopElement depth = false := by
          by_contra hends
          rw [Bool.not_eq_false] at hends
          rw [topEndFrom?_of_ends hends, Option.some.injEq] at hstop
          have hlt := endingStart_lt position token (byteLength written)
          rw [byteLength_append] at hle
          omega
        rw [topEndFrom?_of_not_ends hends] at hstop
        rw [byteLength_append] at hle
        rw [scan_markup hspells] at hcomplete ⊢
        exact .cons hends (ih hstop hmore (by omega) hcomplete)
      · apply lacksElement_cut_markup hspells hback _ hcomplete
        rintro tag rfl
        by_contra hends
        rw [Bool.not_eq_false] at hends
        rw [topEndFrom?_of_ends hends] at hstop
        change some position = some stop at hstop
        rw [Option.some.injEq] at hstop
        omega

theorem read_nil : read [] = ⟨[], .complete⟩ := by
  rw [read, show dropByteOrderMark [] = [] from rfl, scan_nil]
  rfl

/-- A document is cut off before its first element ends: what is left has no whole
element, if it can be read at all. -/
theorem lacksElement_read_of_cut {document front : List Char} {ts : List Located} {stop : Nat}
    (hread : read document = ⟨ts, .complete⟩) (hstop : rootEnd? document = some stop)
    (hfront : front <+: document) (hle : byteLength front ≤ stop)
    (hcomplete : (read front).ending = .complete) :
    LacksElement 0 ((read front).tokens.map Located.token) := by
  obtain ⟨rest, rfl⟩ := hfront
  by_cases hne : front = []
  · subst hne
    rw [read_nil]
    exact lacksElement_nil 0
  · obtain ⟨hscans, -⟩ := read_eq_complete_iff.mp (read_eq_of_complete hcomplete)
    have hscan := scan_eq_of_scans hscans
    rw [rootEnd?, hread] at hstop
    obtain ⟨stop', hstop', rfl⟩ := Option.map_eq_some_iff.mp hstop
    have hdrop := dropByteOrderMark_append hne rest
    have hmark := markLength_add (front ++ rest)
    have hmark' := markLength_add front
    simp only [hdrop, byteLength_append] at hmark
    have h := lacksElement_of_cut (read_eq_complete_iff.mp hread).1 hstop' hdrop
      (by omega) (congrArg Reading.ending hscan)
    rwa [hscan] at h

/-! ### What stands at the end of the first element -/

theorem Spells.exists_eq_bracket {tag : Tag} {written : List Char}
    (h : Spells (.empty tag) written) : ∃ text, written = text ++ ['>'] := by
  generalize htoken : Token.empty tag = token at h
  cases h with
  | close | instruction => cases htoken
  | tag => exact ⟨_, rfl⟩
  | bang => exact ⟨_ :: _ :: _, rfl⟩

theorem Spells.exists_eq_slash {tag : EndTag} {written : List Char}
    (h : Spells (.close tag) written) : ∃ more, written = '/' :: more := by
  generalize htoken : Token.close tag = token at h
  cases h with
  | close => exact ⟨_, rfl⟩
  | instruction => cases htoken
  | @tag text =>
    unfold tagToken at htoken
    split at htoken <;> cases htoken
  | @bang kind c text token hkind hwhole hkindToken =>
    subst htoken
    cases kind with
    | comment =>
      obtain ⟨_, -, h⟩ := BangKind.token_comment_eq_ok_iff.mp hkindToken
      cases h
    | cdata =>
      obtain ⟨_, -, h⟩ := BangKind.token_cdata_eq_ok_iff.mp hkindToken
      cases h
    | doctype =>
      obtain ⟨_, -, -, h⟩ := BangKind.token_doctype_eq_ok_iff.mp hkindToken
      cases h

/-- The ending of the first element begins with the bracket of its end tag, or is the bracket at
the end of its empty tag. -/
theorem exists_split_of_topEndFrom? {position : Nat} {cs : List Char} {ts : List Located}
    (h : Scans position cs ts) {depth stop : Nat}
    (hstop : topEndFrom? position depth ts = some stop) : ∃ before after,
      cs = before ++ after ∧ position + byteLength before = stop ∧
        (['<', '/'] <+: after ∨ ['>'] <+: after) := by
  have hbracket : '<'.utf8Size = 1 := rfl
  have hbracket' : '>'.utf8Size = 1 := rfl
  induction h generalizing depth with
  | nil | bracket => cases hstop
  | lastText =>
    rw [topEndFrom?_of_not_ends rfl] at hstop
    cases hstop
  | @text position raw cs ts _ _ _ ih =>
    rw [topEndFrom?_of_not_ends rfl] at hstop
    obtain ⟨before, after, hcs, hbefore, hafter⟩ := ih hstop
    refine ⟨raw ++ before, after, by rw [hcs, List.append_assoc], ?_, hafter⟩
    rw [byteLength_append, ← Nat.add_assoc]
    exact hbefore
  | @unfinished position token written hunfinished =>
    cases hunfinished with
    | close =>
      cases hends : (Token.close _).endsTopElement depth with
      | true =>
        rw [topEndFrom?_of_ends hends] at hstop
        cases hstop
        exact ⟨[], _, rfl, rfl, .inl (List.prefix_append ['<', '/'] _)⟩
      | false =>
        rw [topEndFrom?_of_not_ends hends] at hstop
        cases hstop
    | instruction =>
      rw [topEndFrom?_of_not_ends rfl] at hstop
      cases hstop
  | @markup position token written cs ts hspells _ ih =>
    cases hends : token.endsTopElement depth with
    | true =>
      rw [topEndFrom?_of_ends hends] at hstop
      cases token with
      | empty tag =>
        obtain ⟨text, rfl⟩ := hspells.exists_eq_bracket
        cases hstop
        refine ⟨'<' :: text, '>' :: cs, by simp, ?_, .inr (List.prefix_append ['>'] cs)⟩
        simp only [endingStart, byteLength_cons, byteLength_append, byteLength_nil, hbracket,
          hbracket']
        omega
      | close tag =>
        obtain ⟨more, rfl⟩ := hspells.exists_eq_slash
        cases hstop
        exact ⟨[], _, rfl, rfl, .inl (List.prefix_append ['<', '/'] _)⟩
      | _ => cases hends
    | false =>
      rw [topEndFrom?_of_not_ends hends] at hstop
      obtain ⟨before, after, rfl, hbefore, hafter⟩ := ih hstop
      refine ⟨'<' :: (written ++ before), after, by simp, ?_, hafter⟩
      rw [byteLength_cons, byteLength_append, hbracket, ← Nat.add_assoc, ← Nat.add_assoc]
      exact hbefore

theorem exists_split_of_rootEnd? {document : List Char} {ts : List Located} {stop : Nat}
    (hread : read document = ⟨ts, .complete⟩) (hstop : rootEnd? document = some stop) :
    ∃ before after, document = before ++ after ∧ byteLength before = stop ∧
      (['<', '/'] <+: after ∨ ['>'] <+: after) := by
  rw [rootEnd?, hread] at hstop
  obtain ⟨stop', hstop', rfl⟩ := Option.map_eq_some_iff.mp hstop
  obtain ⟨before, after, hdrop, hbefore, hafter⟩ :=
    exists_split_of_topEndFrom? (read_eq_complete_iff.mp hread).1 hstop'
  obtain ⟨mark, -, hmark, hlength⟩ := exists_mark document
  refine ⟨mark ++ before, after, ?_, ?_, hafter⟩
  · rw [List.append_assoc, ← hdrop]
    exact hmark
  · rw [byteLength_append, hlength]
    omega

end Markup
end FirmwareTests
