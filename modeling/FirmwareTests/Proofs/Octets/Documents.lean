import FirmwareTests.Proofs.Markup.Rereading
import FirmwareTests.Proofs.Octets.Constructs

/-!
# Documents as bytes

Reading the bytes of a document gives the bytes of what reading its characters gives: the same
tokens at the same positions, and the same ending.
-/

namespace FirmwareTests
namespace Octets

open Markup (Ending)
open Text

theorem readMarkup_bytes (position : Nat) (cs : List Char) :
    readMarkup position (bytes cs) = (Markup.readMarkup position cs).map (Lexeme.of position) := by
  simp only [readMarkup, head?_bytes (c := '!') (by decide), head?_bytes (c := '/') (by decide),
    head?_bytes (c := '?') (by decide)]
  by_cases hbang : cs.head? = some '!'
  · obtain ⟨more, rfl⟩ := List.head?_eq_some_iff.mp hbang
    rw [if_pos hbang]
    exact readBang_bytes position more
  by_cases hslash : cs.head? = some '/'
  · obtain ⟨more, rfl⟩ := List.head?_eq_some_iff.mp hslash
    rw [if_neg hbang, if_pos hslash]
    exact congrArg Except.ok (readEndTag_bytes position more)
  by_cases hmark : cs.head? = some '?'
  · obtain ⟨more, rfl⟩ := List.head?_eq_some_iff.mp hmark
    rw [if_neg hbang, if_neg hslash, if_pos hmark]
    exact readInstruction_bytes position more
  · have hhead : ∀ c ∈ cs.head?, c ≠ '!' ∧ c ≠ '/' ∧ c ≠ '?' := by
      rintro c hc
      refine ⟨?_, ?_, ?_⟩ <;> rintro rfl
      · exact hbang hc
      · exact hslash hc
      · exact hmark hc
    rw [if_neg hbang, if_neg hslash, if_neg hmark, Markup.readMarkup_eq_readTag hhead]
    exact readTag_bytes position cs

/-- What has been read of a text is a part of it, and the position counts its bytes. -/
theorem exists_taken_of_readMarkup {position : Nat} {cs : List Char} {lexeme : Markup.Lexeme}
    (h : Markup.readMarkup position cs = .ok lexeme) :
    ∃ taken, cs = taken ++ lexeme.rest ∧ lexeme.position = position + byteLength taken := by
  rcases Markup.spells_of_readMarkup h with ⟨written, hspells, heq⟩ | hunfinished
  · rw [heq, Markup.readMarkup_of_spells hspells, Except.ok.injEq] at h
    exact ⟨written, heq, (congrArg Markup.Lexeme.position h).symm⟩
  · rw [Markup.readMarkup_of_unfinished hunfinished, Except.ok.injEq] at h
    refine ⟨cs, ?_, (congrArg Markup.Lexeme.position h).symm⟩
    rw [← h, List.append_nil]

/-- The bytes behind some markup are those of the text behind it. -/
theorem drop_markup {position : Nat} {cs : List Char} {lexeme : Markup.Lexeme}
    (h : Markup.readMarkup position cs = .ok lexeme) :
    (bytes cs).drop (lexeme.position - position) = bytes lexeme.rest ∧
      position + (lexeme.position - position) = lexeme.position := by
  obtain ⟨taken, htaken, hposition⟩ := exists_taken_of_readMarkup h
  have hsize : lexeme.position - position = (bytes taken).length := by
    rw [length_bytes]
    omega
  refine ⟨?_, by omega⟩
  rw [hsize, htaken, bytes_append, List.drop_left]

theorem withText_bytes (text : List Char) (position : Nat) (r : Markup.Reading) :
    Reading.withText (bytes text) position (.of r) = .of (r.withText text position) := by
  simp only [Reading.withText, Markup.Reading.withText, bytes_eq_nil_iff]
  split <;> rfl

theorem scan_of_notMem {cs : List Char} (hnot : '<' ∉ cs) (position : Nat) :
    Markup.scan position cs = .withText cs (position + byteLength cs - 1) ⟨[], .complete⟩ := by
  by_cases hempty : cs = []
  · subst hempty
    exact Markup.scan_nil position
  · rw [Markup.scan_lastText hempty hnot, Markup.Reading.withText, if_neg hempty]
    rfl

theorem scan_append_bracket {raw : List Char} (hnot : '<' ∉ raw) (position : Nat)
    (cs : List Char) : Markup.scan position (raw ++ '<' :: cs) =
      .withText raw (position + byteLength raw)
        (if cs = [] then ⟨[], .complete⟩
          else Markup.scanMarkup (position + byteLength raw + 1) cs) := by
  cases cs with
  | nil =>
    by_cases hne : raw = []
    · subst hne
      exact Markup.scan_bracket position
    · rw [Markup.scan_text hne hnot, Markup.scan_bracket, Markup.Reading.withText, if_neg hne,
        if_pos rfl]
  | cons first more => exact Markup.scan_append_bracket hnot position first more

theorem scan_bytes (position : Nat) (cs : List Char) :
    scan position (bytes cs) = .of (Markup.scan position cs) := by
  induction hlength : cs.length using Nat.strongRecOn generalizing position cs with
  | ind n ih =>
    subst hlength
    have htext := (agree_bne (c := '<') (by decide)).takeWhile_bytes cs
    have hdrop := (agree_bne (c := '<') (by decide)).dropWhile_bytes cs
    rcases Markup.exists_split_or_notMem '<' cs with ⟨raw, rest, hnot, rfl⟩ | hnot
    · have hne := Markup.forall_ne_of_notMem hnot
      rw [Markup.takeWhile_append_stop hne (bne_self_eq_false _)] at htext
      rw [Markup.dropWhile_append_stop hne (bne_self_eq_false _),
        bytes_cons_of_isOctet (by decide)] at hdrop
      rw [scan, htext, length_bytes]
      split
      · next hnil => cases hnil.symm.trans hdrop
      · next b markup hcons =>
        obtain ⟨-, rfl⟩ := List.cons.inj (hcons.symm.trans hdrop)
        rw [scan_append_bracket hnot, ← withText_bytes]
        congr 1
        by_cases hrest : rest = []
        · rw [if_pos hrest, if_pos (bytes_eq_nil_iff.mpr hrest)]
          rfl
        · rw [if_neg hrest, if_neg (mt bytes_eq_nil_iff.mp hrest), readMarkup_bytes,
            Markup.scanMarkup]
          cases hread : Markup.readMarkup (position + byteLength raw + 1) rest with
          | error malformed => rfl
          | ok lexeme =>
            obtain ⟨hdropped, hposition⟩ := drop_markup hread
            have hlt : lexeme.rest.length < (raw ++ '<' :: rest).length := by
              have hle := Markup.length_rest_readMarkup_le hread
              rw [List.length_append, List.length_cons]
              omega
            simp only [Except.map, Lexeme.of, hdropped, hposition,
              ih _ hlt lexeme.position lexeme.rest rfl]
            rfl
    · have hne := Markup.forall_ne_of_notMem hnot
      rw [List.takeWhile_eq_self_iff.mpr hne] at htext
      rw [List.dropWhile_eq_nil_iff.mpr hne, bytes_nil] at hdrop
      rw [scan, htext]
      split
      · rw [scan_of_notMem hnot, ← withText_bytes, length_bytes]
        rfl
      · next hcons => cases hcons.symm.trans hdrop

theorem dropByteOrderMark_bytes (document : List Char) :
    dropByteOrderMark (bytes document) = bytes (Markup.dropByteOrderMark document) := by
  have hmark : String.utf8EncodeChar '\uFEFF' = [0xEF, 0xBB, 0xBF] := by decide
  cases document with
  | nil => rfl
  | cons c cs =>
    by_cases hc : c = '\uFEFF'
    · subst hc
      rw [bytes_cons, hmark]
      rfl
    · have hnot : ∀ bs, bytes (c :: cs) ≠ 0xEF :: 0xBB :: 0xBF :: bs := by
        intro bs hbytes
        have hsame : String.utf8EncodeChar c ++ bytes cs =
            String.utf8EncodeChar '\uFEFF' ++ bs := by
          rw [← bytes_cons, hbytes, hmark]
          rfl
        exact hc (eq_of_utf8EncodeChar_append hsame)
      rw [Markup.dropByteOrderMark_cons_of_ne hc, dropByteOrderMark]
      exact hnot

theorem decoded_bytes (cs : List Char) : decoded (bytes cs) = cs := by
  rw [decoded, ofBytes?_bytes, Option.getD_some]

theorem nest_bytes (names : List (List Char)) (ts : List Markup.Located) (ending : Ending) :
    nest (names.map bytes) (ts.map Located.of) ending =
      .of (Markup.Reading.nest names ts ending) := by
  induction ts generalizing names with
  | nil => rfl
  | cons t ts ih =>
    obtain ⟨token, position⟩ := t
    cases token with
    | start tag =>
      have ih := ih (tag.name :: names)
      simp only [List.map_cons, Located.of, Token.of, nest, tagName_bytes, Markup.Reading.nest]
      rw [List.map_cons] at ih
      rw [ih]
      rfl
    | close tag =>
      cases names with
      | nil =>
        simp only [List.map_cons, List.map_nil, Located.of, Token.of, nest,
          Markup.Reading.nest, decoded_bytes, length_bytes]
        rfl
      | cons name outer =>
        simp only [List.map_cons, Located.of, Token.of, nest, endTagName_bytes,
          Markup.Reading.nest, decoded_bytes, length_bytes, bytes_injective.eq_iff, ih outer]
        split <;> rfl
    | _ =>
      simp only [List.map_cons, Located.of, Token.of, nest, Markup.Reading.nest, ih names]
      rfl

/-- The reading of the bytes of a document is that of its characters. -/
theorem read_bytes (document : List Char) : read (bytes document) = .of (Markup.read document) := by
  rw [read, dropByteOrderMark_bytes, scan_bytes]
  exact nest_bytes [] _ _

end Octets
end FirmwareTests
