import FirmwareTests.Markup.Scan
import Mathlib.Data.List.TakeWhile

/-!
# Where markup ends

Each reader of markup splits its text at one bracket. A text is whole for a reader when
a bracket written behind it is the one it splits at, whatever follows; the splits are
exactly the decompositions into a whole text, a bracket and a rest.
-/

namespace FirmwareTests
namespace Markup

open Text

/-! ### Runs of characters -/

section

variable {α : Type} {p : α → Bool} {cs : List α}

theorem takeWhile_append_stop (h : ∀ c ∈ cs, p c = true) {s : α} (hs : p s = false)
    (rest : List α) : (cs ++ s :: rest).takeWhile p = cs := by
  rw [List.takeWhile_append_of_pos h, List.takeWhile_cons, hs]
  simp

theorem dropWhile_append_stop (h : ∀ c ∈ cs, p c = true) {s : α} (hs : p s = false)
    (rest : List α) : (cs ++ s :: rest).dropWhile p = s :: rest := by
  rw [List.dropWhile_append_of_pos h, List.dropWhile_cons, hs]
  simp

end

theorem forall_ne_of_notMem {c : Char} {cs : List Char} (h : c ∉ cs) :
    ∀ d ∈ cs, (d != c) = true := by
  intro d hd
  exact bne_iff_ne.mpr fun heq => h (heq ▸ hd)

/-! ### The next bracket -/

theorem splitAtBracket_append {cs : List Char} (h : '>' ∉ cs) (rest : List Char) :
    splitAtBracket (cs ++ '>' :: rest) = (cs, some rest) := by
  have hne := forall_ne_of_notMem h
  simp [splitAtBracket, takeWhile_append_stop hne, dropWhile_append_stop hne]

theorem splitAtBracket_of_notMem {cs : List Char} (h : '>' ∉ cs) :
    splitAtBracket cs = (cs, none) := by
  have hne := forall_ne_of_notMem h
  simp [splitAtBracket, List.takeWhile_eq_self_iff.mpr hne, List.dropWhile_eq_nil_iff.mpr hne]

/-- A text either holds no bracket or splits at its first one. -/
theorem exists_split_or_notMem (c : Char) (cs : List Char) :
    (∃ before rest, c ∉ before ∧ cs = before ++ c :: rest) ∨ c ∉ cs := by
  by_cases h : c ∈ cs
  · obtain ⟨before, rest, heq, hnot⟩ := List.eq_append_cons_of_mem h
    exact .inl ⟨before, rest, hnot, heq⟩
  · exact .inr h

/-! ### The next bracket outside quotes -/

def quoteAfterAll (quote : Option Char) (cs : List Char) : Option Char :=
  cs.foldl quoteAfter quote

@[simp] theorem quoteAfterAll_nil (quote : Option Char) : quoteAfterAll quote [] = quote := rfl

@[simp] theorem quoteAfterAll_cons (quote : Option Char) (c : Char) (cs : List Char) :
    quoteAfterAll quote (c :: cs) = quoteAfterAll (quoteAfter quote c) cs := rfl

@[simp] theorem quoteAfterAll_append (quote : Option Char) (cs ds : List Char) :
    quoteAfterAll quote (cs ++ ds) = quoteAfterAll (quoteAfterAll quote cs) ds := by
  simp [quoteAfterAll]

/-- Whether a text, begun inside the given quote if there is one, has no bracket outside
quotes. -/
def isWithinTag : Option Char → List Char → Bool
  | _, [] => true
  | quote, c :: cs => !(quote.isNone && c == '>') && isWithinTag (quoteAfter quote c) cs

@[simp] theorem isWithinTag_nil (quote : Option Char) : isWithinTag quote [] = true := rfl

theorem isWithinTag_append (quote : Option Char) (cs ds : List Char) :
    isWithinTag quote (cs ++ ds) = true ↔
      isWithinTag quote cs = true ∧ isWithinTag (quoteAfterAll quote cs) ds = true := by
  induction cs generalizing quote with
  | nil => simp
  | cons c cs ih => simp [isWithinTag, ih, and_assoc]

/-- A text that ends at the bracket behind it: none before it is outside quotes, and no
quote is left open. -/
def IsWholeTag (cs : List Char) : Prop :=
  isWithinTag none cs = true ∧ quoteAfterAll none cs = none

theorem IsWholeTag.append {cs ds : List Char} (hcs : IsWholeTag cs) (hds : IsWholeTag ds) :
    IsWholeTag (cs ++ ds) := by
  refine ⟨(isWithinTag_append none cs ds).mpr ⟨hcs.1, ?_⟩, ?_⟩
  · rw [hcs.2]
    exact hds.1
  · rw [quoteAfterAll_append, hcs.2]
    exact hds.2

theorem splitTag_append {quote : Option Char} {cs : List Char}
    (hwithin : isWithinTag quote cs = true) (hquote : quoteAfterAll quote cs = none)
    (rest : List Char) : splitTag quote (cs ++ '>' :: rest) = some (cs, rest) := by
  induction cs generalizing quote with
  | nil =>
    have hnone : quote = none := hquote
    simp [splitTag, hnone]
  | cons c cs ih =>
    simp only [isWithinTag, Bool.and_eq_true] at hwithin
    have hc : ¬ (quote = none ∧ c = '>') := by
      rintro ⟨rfl, rfl⟩
      simp at hwithin
    simp [splitTag, hc, ih hwithin.2 hquote]

theorem eq_append_of_splitTag {quote : Option Char} {cs text rest : List Char}
    (h : splitTag quote cs = some (text, rest)) :
    cs = text ++ '>' :: rest ∧ isWithinTag quote text = true ∧
      quoteAfterAll quote text = none := by
  induction cs generalizing quote text with
  | nil => simp [splitTag] at h
  | cons c cs ih =>
    simp only [splitTag] at h
    split at h
    · next hc =>
      cases h
      simp [hc.1, hc.2]
    · next hc =>
      obtain ⟨⟨inner, rest'⟩, hinner, heq⟩ := Option.map_eq_some_iff.mp h
      cases heq
      obtain ⟨hcs, hwithin, hquote⟩ := ih hinner
      refine ⟨by simp [hcs], ?_, hquote⟩
      simp only [isWithinTag, hwithin, Bool.and_true]
      cases quote with
      | none => simpa using hc
      | some q => simp

/-- Splitting at the bracket that ends a tag takes a whole text off, and only such a text. -/
theorem splitTag_eq_some_iff {cs text rest : List Char} :
    splitTag none cs = some (text, rest) ↔ cs = text ++ '>' :: rest ∧ IsWholeTag text := by
  constructor
  · exact eq_append_of_splitTag
  · rintro ⟨rfl, hwithin, hquote⟩
    exact splitTag_append hwithin hquote rest

/-! ### The bracket that ends a construct -/

/-- Whether a text has no bracket that ends the construct and a bracket behind it would.
What stands before the text is given last character first. -/
def BangKind.isWhole (kind : BangKind) : List Char → List Char → Bool
  | before, [] => kind.ends before
  | before, c :: cs => !(c == '>' && kind.ends before) && kind.isWhole (c :: before) cs

theorem BangKind.isWhole_iff {kind : BangKind} {before cs : List Char} :
    kind.isWhole before cs = true ↔ kind.ends (cs.reverse ++ before) = true ∧
      ∀ front back, cs = front ++ '>' :: back → kind.ends (front.reverse ++ before) = false := by
  induction cs generalizing before with
  | nil => simp [isWhole]
  | cons c cs ih =>
    rw [isWhole, Bool.and_eq_true, ih, List.reverse_cons, List.append_assoc]
    constructor
    · rintro ⟨hfirst, hends, hnone⟩
      refine ⟨hends, ?_⟩
      intro front back hsplit
      cases front with
      | nil =>
        obtain ⟨rfl, rfl⟩ := List.cons.inj hsplit
        simpa using hfirst
      | cons d front =>
        obtain ⟨rfl, hrest⟩ := List.cons.inj hsplit
        simpa using hnone front back hrest
    · rintro ⟨hends, hnone⟩
      refine ⟨?_, hends, ?_⟩
      · by_cases hc : c = '>'
        · subst hc
          simpa using hnone [] cs rfl
        · simp [hc]
      · rintro front back rfl
        simpa using hnone (c :: front) back rfl

theorem splitBang_append {kind : BangKind} {before cs : List Char}
    (h : kind.isWhole before cs = true) (rest : List Char) :
    splitBang kind before (cs ++ '>' :: rest) = some (before.reverse ++ cs, rest) := by
  induction cs generalizing before with
  | nil =>
    have hends : kind.ends before = true := h
    simp [splitBang, hends]
  | cons c cs ih =>
    simp only [BangKind.isWhole, Bool.and_eq_true] at h
    have hc : ¬ (c = '>' ∧ kind.ends before = true) := by
      rintro ⟨rfl, hends⟩
      simp [hends] at h
    rw [List.cons_append, splitBang, if_neg hc, ih h.2]
    simp

theorem eq_append_of_splitBang {kind : BangKind} {before cs text rest : List Char}
    (h : splitBang kind before cs = some (text, rest)) :
    ∃ body, text = before.reverse ++ body ∧ cs = body ++ '>' :: rest ∧
      kind.isWhole before body = true := by
  induction cs generalizing before with
  | nil => simp [splitBang] at h
  | cons c cs ih =>
    simp only [splitBang] at h
    split at h
    · next hc =>
      cases h
      exact ⟨[], by simp, by simp [hc.1], hc.2⟩
    · next hc =>
      obtain ⟨body, htext, hcs, hwhole⟩ := ih h
      refine ⟨c :: body, by simp [htext], by simp [hcs], ?_⟩
      have hends : (c == '>' && kind.ends before) = false := by
        rw [← Bool.not_eq_true, Bool.and_eq_true, beq_iff_eq]
        exact hc
      simp [BangKind.isWhole, hwhole, hends]

end Markup
end FirmwareTests
