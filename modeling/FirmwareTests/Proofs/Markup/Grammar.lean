import FirmwareTests.Proofs.Markup.Boundary

/-!
# The grammar of documents

`Spells` says how a piece of markup is written and `Unfinished` what the end of a
document may cut off. `Scans` puts a document together from texts and markup. Scanning
a document completes exactly when the document follows this grammar, and gives the
tokens and positions of its derivation.
-/

namespace FirmwareTests
namespace Markup

open Text

/-- The text of a token after its opening bracket, up to and including the bracket that
ends it. -/
inductive Spells : Token → List Char → Prop
  | close {text : List Char} : '>' ∉ text → Spells (.close ⟨text⟩) ('/' :: (text ++ ['>']))
  | instruction {raw : List Char} : '>' ∉ raw → raw ≠ [] →
      Spells (.instruction raw) ('?' :: (raw ++ ['?', '>']))
  | tag {text : List Char} : IsWholeTag text →
      (∀ c ∈ text.head?, c ≠ '!' ∧ c ≠ '/' ∧ c ≠ '?') → Spells (tagToken text) (text ++ ['>'])
  | bang {kind : BangKind} {c : Char} {text : List Char} {token : Token} :
      BangKind.ofChar? c = some kind → kind.isWhole ['!'] (c :: text) = true →
      kind.token ('!' :: c :: text) = .ok token → Spells token ('!' :: c :: (text ++ ['>']))

/-- The text of a token after its opening bracket when the document ends before the
bracket that would end it. -/
inductive Unfinished : Token → List Char → Prop
  | close {text : List Char} : '>' ∉ text → Unfinished (.close ⟨text⟩) ('/' :: text)
  | instruction {raw : List Char} : '>' ∉ raw → raw ≠ [] →
      Unfinished (.instruction raw) ('?' :: (raw ++ ['?']))

/-! ### Reading markup -/

theorem readEndTag_append (position : Nat) {text : List Char} (h : '>' ∉ text)
    (rest : List Char) : readEndTag position (text ++ '>' :: rest) =
      ⟨.close ⟨text⟩, position + byteLength text + 1, rest⟩ := by
  simp [readEndTag, splitAtBracket_append h, bracketLength]

theorem readEndTag_of_notMem (position : Nat) {text : List Char} (h : '>' ∉ text) :
    readEndTag position text = ⟨.close ⟨text⟩, position + byteLength text, []⟩ := by
  simp [readEndTag, splitAtBracket_of_notMem h, bracketLength]

theorem readInstruction_append (position : Nat) {raw : List Char} (h : '>' ∉ raw)
    (hne : raw ≠ []) (rest : List Char) : readInstruction position (raw ++ '?' :: '>' :: rest) =
      .ok ⟨.instruction raw, position + byteLength raw + 2, rest⟩ := by
  have hmark : '>' ∉ raw ++ ['?'] := by simp [h]
  have hsplit := splitAtBracket_append hmark rest
  simp only [List.append_assoc, List.cons_append, List.nil_append] at hsplit
  simp [readInstruction, hsplit, hne, bracketLength, Nat.add_assoc]
  rfl

theorem readInstruction_of_notMem (position : Nat) {raw : List Char} (h : '>' ∉ raw)
    (hne : raw ≠ []) : readInstruction position (raw ++ ['?']) =
      .ok ⟨.instruction raw, position + byteLength raw + 1, []⟩ := by
  have hmark : '>' ∉ raw ++ ['?'] := by simp [h]
  simp [readInstruction, splitAtBracket_of_notMem hmark, hne, bracketLength, Nat.add_assoc]
  rfl

theorem readMarkup_eq_readTag {cs : List Char}
    (h : ∀ c ∈ cs.head?, c ≠ '!' ∧ c ≠ '/' ∧ c ≠ '?') (position : Nat) :
    readMarkup position cs = readTag position cs := by
  unfold readMarkup
  split
  · exact absurd rfl (h _ rfl).1
  · exact absurd rfl (h _ rfl).2.1
  · exact absurd rfl (h _ rfl).2.2
  · rfl

theorem readTag_append {text : List Char} (h : IsWholeTag text) (position : Nat)
    (rest : List Char) : readTag position (text ++ '>' :: rest) =
      .ok ⟨tagToken text, position + byteLength text + 1, rest⟩ := by
  simp [readTag, splitTag_append h.1 h.2]

theorem readBang_append {kind : BangKind} {c : Char} {text : List Char} {token : Token}
    (hkind : BangKind.ofChar? c = some kind) (hwhole : kind.isWhole ['!'] (c :: text) = true)
    (htoken : kind.token ('!' :: c :: text) = .ok token) (position : Nat) (rest : List Char) :
    readBang position (c :: (text ++ '>' :: rest)) =
      .ok ⟨token, position + byteLength ('!' :: c :: text) + 1, rest⟩ := by
  have hsplit := splitBang_append hwhole rest
  simp only [List.reverse_singleton, List.cons_append, List.nil_append] at hsplit
  simp [readBang, hkind, hsplit, htoken]

theorem readMarkup_of_spells {token : Token} {written : List Char} (h : Spells token written)
    (position : Nat) (rest : List Char) : readMarkup position (written ++ rest) =
      .ok ⟨token, position + byteLength written, rest⟩ := by
  have hbracket : '>'.utf8Size = 1 := rfl
  have hslash : '/'.utf8Size = 1 := rfl
  have hmark : '?'.utf8Size = 1 := rfl
  cases h with
  | close hnot =>
    simp only [List.cons_append, List.append_assoc, List.nil_append, readMarkup,
      readEndTag_append _ hnot, byteLength_cons, byteLength_append, byteLength_nil, hbracket,
      hslash, Nat.add_assoc]
  | instruction hnot hne =>
    simp only [List.cons_append, List.append_assoc, List.nil_append, readMarkup,
      readInstruction_append _ hnot hne, byteLength_cons, byteLength_append, byteLength_nil,
      hbracket, hmark, Nat.add_assoc]
  | @tag text hwhole hhead =>
    have hhead' : ∀ c ∈ (text ++ '>' :: rest).head?, c ≠ '!' ∧ c ≠ '/' ∧ c ≠ '?' := by
      cases text with
      | nil => simp
      | cons c text => simpa using hhead
    rw [List.append_assoc, List.singleton_append, readMarkup_eq_readTag hhead',
      readTag_append hwhole]
    simp only [byteLength_cons, byteLength_append, byteLength_nil, hbracket, Nat.add_assoc]
  | bang hkind hwhole htoken =>
    simp only [List.cons_append, List.append_assoc, List.nil_append, readMarkup,
      readBang_append hkind hwhole htoken, byteLength_cons, byteLength_append, byteLength_nil,
      hbracket, Nat.add_assoc]

theorem readMarkup_of_unfinished {token : Token} {written : List Char}
    (h : Unfinished token written) (position : Nat) :
    readMarkup position written = .ok ⟨token, position + byteLength written, []⟩ := by
  have hslash : '/'.utf8Size = 1 := rfl
  have hmark : '?'.utf8Size = 1 := rfl
  cases h with
  | close hnot =>
    simp only [readMarkup, readEndTag_of_notMem _ hnot, byteLength_cons, hslash, Nat.add_assoc]
  | instruction hnot hne =>
    simp only [readMarkup, readInstruction_of_notMem _ hnot hne, byteLength_cons,
      byteLength_append, byteLength_nil, hmark, Nat.add_assoc]

theorem eq_append_mark {cs : List Char} (hlast : cs.getLast? = some '?')
    (hinit : cs.dropLast ≠ []) : ∃ raw, raw ≠ [] ∧ cs = raw ++ ['?'] := by
  obtain ⟨raw, rfl⟩ := List.getLast?_eq_some_iff.mp hlast
  exact ⟨raw, by simpa using hinit, rfl⟩

theorem spells_of_readBang {position : Nat} {cs : List Char} {lexeme : Lexeme}
    (h : readBang position cs = .ok lexeme) :
    ∃ written, Spells lexeme.token ('!' :: written) ∧ cs = written ++ lexeme.rest := by
  simp only [readBang] at h
  split at h
  · cases h
  · next c more =>
    split at h
    · cases h
    · next kind hkind =>
      split at h
      · cases h
      · next text rest hsplit =>
        split at h
        · next token htoken =>
          cases h
          obtain ⟨body, rfl, hcs, hwhole⟩ := eq_append_of_splitBang hsplit
          cases body with
          | nil =>
            obtain ⟨rfl, -⟩ := List.cons.inj hcs
            simp [BangKind.ofChar?] at hkind
          | cons d body =>
            obtain ⟨rfl, rfl⟩ := List.cons.inj hcs
            exact ⟨_, .bang hkind hwhole htoken, by simp⟩
        · cases h

theorem spells_of_readEndTag (position : Nat) (cs : List Char) :
    (∃ written, Spells (readEndTag position cs).token ('/' :: written) ∧
        cs = written ++ (readEndTag position cs).rest) ∨
      Unfinished (readEndTag position cs).token ('/' :: cs) := by
  rcases exists_split_or_notMem '>' cs with ⟨text, rest, hnot, rfl⟩ | hnot
  · rw [readEndTag_append _ hnot]
    exact .inl ⟨_, .close hnot, by simp⟩
  · rw [readEndTag_of_notMem _ hnot]
    exact .inr (.close hnot)

theorem spells_of_readInstruction {position : Nat} {cs : List Char} {lexeme : Lexeme}
    (h : readInstruction position cs = .ok lexeme) :
    (∃ written, Spells lexeme.token ('?' :: written) ∧ cs = written ++ lexeme.rest) ∨
      Unfinished lexeme.token ('?' :: cs) := by
  simp only [readInstruction] at h
  split at h
  · next hmark =>
    rcases exists_split_or_notMem '>' cs with ⟨text, rest, hnot, rfl⟩ | hnot
    · simp only [splitAtBracket_append hnot] at h hmark
      cases h
      obtain ⟨raw, hne, rfl⟩ := eq_append_mark hmark.1 hmark.2
      have hraw : '>' ∉ raw := fun hmem => hnot (List.mem_append_left _ hmem)
      rw [List.dropLast_concat]
      exact .inl ⟨_, .instruction hraw hne, by simp⟩
    · simp only [splitAtBracket_of_notMem hnot] at h hmark
      cases h
      obtain ⟨raw, hne, rfl⟩ := eq_append_mark hmark.1 hmark.2
      have hraw : '>' ∉ raw := fun hmem => hnot (List.mem_append_left _ hmem)
      simp only [List.dropLast_concat]
      exact .inr (.instruction hraw hne)
  · cases h

theorem spells_of_readTag {position : Nat} {cs : List Char} {lexeme : Lexeme}
    (h : readTag position cs = .ok lexeme)
    (hhead : ∀ c ∈ cs.head?, c ≠ '!' ∧ c ≠ '/' ∧ c ≠ '?') :
    ∃ written, Spells lexeme.token written ∧ cs = written ++ lexeme.rest := by
  simp only [readTag] at h
  split at h
  · cases h
  · next text rest hsplit =>
    cases h
    obtain ⟨rfl, hwhole⟩ := splitTag_eq_some_iff.mp hsplit
    refine ⟨_, .tag hwhole ?_, by simp⟩
    intro c hc
    obtain ⟨more, rfl⟩ := List.head?_eq_some_iff.mp hc
    exact hhead c rfl

theorem spells_of_readMarkup {position : Nat} {cs : List Char} {lexeme : Lexeme}
    (h : readMarkup position cs = .ok lexeme) :
    (∃ written, Spells lexeme.token written ∧ cs = written ++ lexeme.rest) ∨
      Unfinished lexeme.token cs := by
  unfold readMarkup at h
  split at h
  · next more =>
    obtain ⟨written, hspells, rfl⟩ := spells_of_readBang h
    exact .inl ⟨_, hspells, rfl⟩
  · next more =>
    cases h
    rcases spells_of_readEndTag (position + 1) more with ⟨written, hspells, heq⟩ | hunfinished
    · exact .inl ⟨_, hspells, by rw [List.cons_append, ← heq]⟩
    · exact .inr hunfinished
  · next more =>
    rcases spells_of_readInstruction h with ⟨written, hspells, rfl⟩ | hunfinished
    · exact .inl ⟨_, hspells, rfl⟩
    · exact .inr hunfinished
  · next hbang hslash hquestion =>
    left
    apply spells_of_readTag h
    intro c hc
    obtain ⟨more, rfl⟩ := List.head?_eq_some_iff.mp hc
    refine ⟨?_, ?_, ?_⟩
    · rintro rfl
      exact hbang _ rfl
    · rintro rfl
      exact hslash _ rfl
    · rintro rfl
      exact hquestion _ rfl

/-! ### Scanning -/

/-- The documents whose scanning completes, from a position on, with their tokens. -/
inductive Scans : Nat → List Char → List Located → Prop
  | nil (position : Nat) : Scans position [] []
  | bracket (position : Nat) : Scans position ['<'] []
  | lastText {position : Nat} {raw : List Char} : raw ≠ [] → '<' ∉ raw →
      Scans position raw [⟨.text raw, position + byteLength raw - 1⟩]
  | text {position : Nat} {raw cs : List Char} {ts : List Located} : raw ≠ [] → '<' ∉ raw →
      Scans (position + byteLength raw) ('<' :: cs) ts →
      Scans position (raw ++ '<' :: cs) (⟨.text raw, position + byteLength raw⟩ :: ts)
  | unfinished {position : Nat} {token : Token} {written : List Char} :
      Unfinished token written →
      Scans position ('<' :: written) [⟨token, position + 1 + byteLength written⟩]
  | markup {position : Nat} {token : Token} {written cs : List Char} {ts : List Located} :
      Spells token written → Scans (position + 1 + byteLength written) cs ts →
      Scans position ('<' :: (written ++ cs)) (⟨token, position + 1 + byteLength written⟩ :: ts)

theorem scan_nil (position : Nat) : scan position [] = ⟨[], .complete⟩ := by
  rw [scan]
  rfl

theorem scan_bracket (position : Nat) : scan position ['<'] = ⟨[], .complete⟩ := by
  rw [scan]
  rfl

theorem scan_lastText {raw : List Char} (hne : raw ≠ []) (hnot : '<' ∉ raw) (position : Nat) :
    scan position raw = ⟨[⟨.text raw, position + byteLength raw - 1⟩], .complete⟩ := by
  have hall := forall_ne_of_notMem hnot
  rw [scan]
  split
  · simp [List.takeWhile_eq_self_iff.mpr hall, Reading.withText, hne, Reading.cons]
  · next h => simp [List.dropWhile_eq_nil_iff.mpr hall] at h
  · next h => simp [List.dropWhile_eq_nil_iff.mpr hall] at h

def scanMarkup (position : Nat) (cs : List Char) : Reading :=
  match readMarkup position cs with
  | .error malformed => ⟨[], .broken malformed⟩
  | .ok lexeme =>
    (scan lexeme.position lexeme.rest).cons ⟨lexeme.token, lexeme.position⟩

theorem scan_append_bracket {raw : List Char} (hnot : '<' ∉ raw) (position : Nat) (first : Char)
    (more : List Char) : scan position (raw ++ '<' :: first :: more) =
      Reading.withText raw (position + byteLength raw)
        (scanMarkup (position + byteLength raw + 1) (first :: more)) := by
  have hall := forall_ne_of_notMem hnot
  have htake := takeWhile_append_stop hall (s := '<') rfl (first :: more)
  have hdrop := dropWhile_append_stop hall (s := '<') rfl (first :: more)
  rw [scan]
  split
  · next h => simp [hdrop] at h
  · next h => simp [hdrop] at h
  · next c first' more' h =>
    rw [hdrop] at h
    obtain ⟨-, h⟩ := List.cons.inj h
    obtain ⟨rfl, rfl⟩ := List.cons.inj h
    simp only [htake, scanMarkup]
    split <;> rename_i hread <;> rw [htake] at hread <;> rw [hread]

theorem scan_bracket_cons (position : Nat) (first : Char) (more : List Char) :
    scan position ('<' :: first :: more) = scanMarkup (position + 1) (first :: more) := by
  have h := scan_append_bracket List.not_mem_nil position first more
  simpa [Reading.withText] using h

theorem scan_text {raw : List Char} (hne : raw ≠ []) (hnot : '<' ∉ raw) (position : Nat)
    (cs : List Char) : scan position (raw ++ '<' :: cs) =
      (scan (position + byteLength raw) ('<' :: cs)).cons
        ⟨.text raw, position + byteLength raw⟩ := by
  cases cs with
  | nil =>
    have hall := forall_ne_of_notMem hnot
    have htake := takeWhile_append_stop hall (s := '<') rfl []
    have hdrop := dropWhile_append_stop hall (s := '<') rfl []
    rw [scan_bracket, scan]
    split
    · next h => simp [hdrop] at h
    · simp [htake, Reading.withText, hne]
    · next h => simp [hdrop] at h
  | cons first more =>
    rw [scan_append_bracket hnot, scan_bracket_cons]
    simp [Reading.withText, hne]

theorem scan_markup {token : Token} {written : List Char} (h : Spells token written)
    (position : Nat) (cs : List Char) : scan position ('<' :: (written ++ cs)) =
      (scan (position + 1 + byteLength written) cs).cons
        ⟨token, position + 1 + byteLength written⟩ := by
  have hread := readMarkup_of_spells h (position + 1) cs
  cases hcs : written ++ cs with
  | nil => cases h <;> simp at hcs
  | cons first more =>
    rw [hcs] at hread
    rw [scan_bracket_cons, scanMarkup, hread]

theorem scan_unfinished {token : Token} {written : List Char} (h : Unfinished token written)
    (position : Nat) : scan position ('<' :: written) =
      ⟨[⟨token, position + 1 + byteLength written⟩], .complete⟩ := by
  have hread := readMarkup_of_unfinished h (position + 1)
  cases written with
  | nil => cases h
  | cons first more =>
    rw [scan_bracket_cons, scanMarkup, hread]
    simp [scan_nil, Reading.cons]

theorem scan_eq_of_scans {position : Nat} {cs : List Char} {ts : List Located}
    (h : Scans position cs ts) : scan position cs = ⟨ts, .complete⟩ := by
  induction h with
  | nil position => exact scan_nil position
  | bracket position => exact scan_bracket position
  | lastText hne hnot => exact scan_lastText hne hnot _
  | text hne hnot _ ih => rw [scan_text hne hnot, ih, Reading.cons]
  | unfinished h => exact scan_unfinished h _
  | markup h _ ih => rw [scan_markup h, ih, Reading.cons]

theorem Spells.written_ne_nil {token : Token} {written : List Char} (h : Spells token written) :
    written ≠ [] := by
  cases h <;> simp

theorem eq_of_cons_eq_complete {t : Located} {r : Reading} {ts : List Located}
    (h : r.cons t = ⟨ts, .complete⟩) : ∃ us, ts = t :: us ∧ r = ⟨us, .complete⟩ := by
  obtain ⟨us, ending⟩ := r
  simp only [Reading.cons, Reading.mk.injEq] at h
  exact ⟨us, h.1.symm, by rw [h.2]⟩

theorem scans_of_scan_markup {position : Nat} {cs : List Char} {ts : List Located}
    (hrest : ∀ {position : Nat} {rest : List Char} {us : List Located},
      rest.length < cs.length → scan position rest = ⟨us, .complete⟩ → Scans position rest us)
    (h : scan position ('<' :: cs) = ⟨ts, .complete⟩) : Scans position ('<' :: cs) ts := by
  cases cs with
  | nil =>
    rw [scan_bracket] at h
    cases h
    exact .bracket position
  | cons first more =>
    cases hread : readMarkup (position + 1) (first :: more) with
    | error malformed =>
      rw [scan_bracket_cons, scanMarkup, hread] at h
      cases h
    | ok lexeme =>
      rcases spells_of_readMarkup hread with ⟨written, hspells, heq⟩ | hunfinished
      · rw [heq] at hrest h ⊢
        rw [scan_markup hspells] at h
        obtain ⟨us, rfl, hscan⟩ := eq_of_cons_eq_complete h
        apply Scans.markup hspells
        apply hrest _ hscan
        have hpos := List.length_pos_iff.mpr hspells.written_ne_nil
        rw [List.length_append]
        omega
      · rw [scan_unfinished hunfinished] at h
        cases h
        exact .unfinished hunfinished

theorem scans_of_scan {position : Nat} {cs : List Char} {ts : List Located}
    (h : scan position cs = ⟨ts, .complete⟩) : Scans position cs ts := by
  induction hlength : cs.length using Nat.strongRecOn generalizing position cs ts with
  | ind n ih =>
    subst hlength
    rcases exists_split_or_notMem '<' cs with ⟨raw, rest, hnot, rfl⟩ | hnot
    · -- markup is read in the same way with and without a text before it
      have hmarkup : ∀ {start : Nat} {us : List Located},
          scan start ('<' :: rest) = ⟨us, .complete⟩ → Scans start ('<' :: rest) us := by
        intro start us hscan
        apply scans_of_scan_markup _ hscan
        intro position cs ts hlt hscan
        exact ih cs.length (by simp; omega) hscan rfl
      by_cases hne : raw = []
      · subst hne
        exact hmarkup h
      · rw [scan_text hne hnot] at h
        obtain ⟨us, rfl, hscan⟩ := eq_of_cons_eq_complete h
        exact .text hne hnot (hmarkup hscan)
    · by_cases hne : cs = []
      · subst hne
        rw [scan_nil] at h
        cases h
        exact .nil position
      · rw [scan_lastText hne hnot] at h
        cases h
        exact .lastText hne hnot

theorem scan_eq_complete_iff {position : Nat} {cs : List Char} {ts : List Located} :
    scan position cs = ⟨ts, .complete⟩ ↔ Scans position cs ts :=
  ⟨scans_of_scan, scan_eq_of_scans⟩

end Markup
end FirmwareTests
