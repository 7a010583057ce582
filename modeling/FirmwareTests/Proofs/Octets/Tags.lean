import FirmwareTests.Proofs.Octets.Scan
import FirmwareTests.Proofs.Text.Octets

/-!
# Tags as bytes

What is read of the bytes of a text is the bytes of what is read of its characters. End tags and
instructions are cut at the next bracket and tags at the next one outside quotes; brackets and
quotes are characters of one byte, so that both cuts fall between two characters.
-/

namespace FirmwareTests
namespace Octets

open Markup (Malformed)
open Text

/-! ### Readings as bytes -/

def Token.of : Markup.Token → Token
  | .text raw => .text (bytes raw)
  | .start tag => .start (bytes tag.text)
  | .empty tag => .empty (bytes tag.text)
  | .close tag => .close (bytes tag.text)
  | .cdata raw => .cdata (bytes raw)
  | .comment raw => .comment (bytes raw)
  | .instruction raw => .instruction (bytes raw)
  | .doctype raw => .doctype (bytes raw)

def Located.of (t : Markup.Located) : Located :=
  ⟨.of t.token, t.position⟩

def Reading.of (r : Markup.Reading) : Reading :=
  ⟨r.tokens.map Located.of, r.ending⟩

/-- What is read from the front of a text, as a lexeme of its bytes. -/
def Lexeme.of (position : Nat) (lexeme : Markup.Lexeme) : Lexeme :=
  ⟨.of lexeme.token, lexeme.position - position⟩

theorem agree_isSpace : Agree isSpace Markup.isSpace :=
  (((agree_beq (by decide)).or (agree_beq (by decide))).or (agree_beq (by decide))).or
    (agree_beq (by decide))

theorem tagName_bytes (tag : Markup.Tag) : tagName (bytes tag.text) = bytes tag.name :=
  agree_isSpace.not.takeWhile_bytes tag.text

theorem endTagName_bytes (tag : Markup.EndTag) : endTagName (bytes tag.text) = bytes tag.name := by
  rw [endTagName, Markup.EndTag.name, agree_isSpace.all_bytes, agree_isSpace.rdropWhile_bytes]
  split <;> rfl

/-! ### Markup up to the next bracket -/

theorem readUntilBracket_bytes (cs : List Char) :
    readUntilBracket (bytes cs) =
      (bytes (Markup.splitAtBracket cs).1,
        byteLength (Markup.splitAtBracket cs).1 +
          Markup.bracketLength (Markup.splitAtBracket cs).2) := by
  rw [readUntilBracket, (agree_bne (by decide)).takeWhile_bytes]
  rcases Markup.exists_split_or_notMem '>' cs with ⟨text, rest, hnot, rfl⟩ | hnot
  · have hne := Markup.forall_ne_of_notMem hnot
    have hbracket : '>'.utf8Size = 1 := rfl
    have hsize : min (byteLength text + 1) (byteLength (text ++ '>' :: rest)) =
        byteLength text + 1 := by
      rw [byteLength_append, byteLength_cons]
      omega
    rw [Markup.splitAtBracket_append hnot, Markup.takeWhile_append_stop hne (bne_self_eq_false _),
      length_bytes, length_bytes, hsize]
    rfl
  · have hne := Markup.forall_ne_of_notMem hnot
    have hsize : min (byteLength cs + 1) (byteLength cs) = byteLength cs := by omega
    rw [Markup.splitAtBracket_of_notMem hnot, List.takeWhile_eq_self_iff.mpr hne, length_bytes,
      hsize]
    rfl

theorem readEndTag_bytes (position : Nat) (cs : List Char) :
    readEndTag (bytes cs) = .of position (Markup.readEndTag (position + 1) cs) := by
  rw [readEndTag, readUntilBracket_bytes]
  simp only [Lexeme.of, Markup.readEndTag, Token.of, Lexeme.mk.injEq, true_and]
  omega

theorem readInstruction_bytes (position : Nat) (cs : List Char) :
    readInstruction position (bytes cs) =
      (Markup.readInstruction (position + 1) cs).map (Lexeme.of position) := by
  rw [readInstruction, readUntilBracket_bytes, Markup.readInstruction]
  dsimp only
  generalize Markup.splitAtBracket cs = split
  by_cases hmark : split.1.getLast? = some '?' ∧ split.1.dropLast ≠ []
  · have hdrop := dropLast_bytes (by decide) hmark.1
    have hbytes : (bytes split.1).getLast? = some '?'.toUInt8 ∧ (bytes split.1).dropLast ≠ [] := by
      rw [hdrop, Ne, bytes_eq_nil_iff]
      exact ⟨(getLast?_bytes (by decide)).mpr hmark.1, hmark.2⟩
    rw [if_pos hmark, if_pos hbytes, hdrop]
    simp only [Except.map, Lexeme.of, Token.of, Except.ok.injEq, Lexeme.mk.injEq, true_and]
    omega
  · have hbytes :
        ¬((bytes split.1).getLast? = some '?'.toUInt8 ∧ (bytes split.1).dropLast ≠ []) := by
      rintro ⟨hlast, hne⟩
      have hmark' := (getLast?_bytes (by decide)).mp hlast
      rw [dropLast_bytes (by decide) hmark', Ne, bytes_eq_nil_iff] at hne
      exact hmark ⟨hmark', hne⟩
    rw [if_neg hmark, if_neg hbytes, length_bytes, Nat.add_sub_cancel_left, Nat.add_sub_cancel]
    rfl

/-! ### Tags -/

/-- Every byte of a character opens and closes quotes as the character does. -/
theorem quoteAfter_of_mem {quote : Option Char} (hquote : ∀ c ∈ quote, IsOctet c) {c : Char}
    {b : UInt8} (hb : b ∈ String.utf8EncodeChar c) :
    quoteAfter (quote.map Char.toUInt8) b = (Markup.quoteAfter quote c).map Char.toUInt8 := by
  cases quote with
  | none =>
    have hdouble : b = '"'.toUInt8 ↔ c = '"' := eq_toUInt8_iff (by decide) hb
    have hsingle : b = '\''.toUInt8 ↔ c = '\'' := eq_toUInt8_iff (by decide) hb
    simp only [Option.map_none, quoteAfter, Markup.quoteAfter, hdouble, hsingle]
    split
    · next hc =>
      have hoctet : IsOctet c := by rcases hc with rfl | rfl <;> decide
      rw [(eq_toUInt8_iff hoctet hb).mpr rfl]
      rfl
    · rfl
  | some quote =>
    have hsame : b = quote.toUInt8 ↔ c = quote := eq_toUInt8_iff (hquote quote rfl) hb
    simp only [Option.map_some, quoteAfter, Markup.quoteAfter, hsame]
    split <;> rfl

theorem isOctet_quoteAfter {quote : Option Char} (hquote : ∀ c ∈ quote, IsOctet c) (c : Char) :
    ∀ d ∈ Markup.quoteAfter quote c, IsOctet d := by
  intro d hd
  cases quote with
  | none =>
    simp only [Markup.quoteAfter] at hd
    split at hd
    · next hc =>
      cases hd
      rcases hc with rfl | rfl <;> decide
    · cases hd
  | some quote =>
    simp only [Markup.quoteAfter] at hd
    split at hd
    · cases hd
    · cases hd
      exact hquote _ rfl

theorem tagText?_append {quote : Option UInt8} {run : List UInt8}
    (h : ∀ b ∈ run, b ≠ '>'.toUInt8 ∧ quoteAfter quote b = quote) (rest : List UInt8) :
    tagText? quote (run ++ rest) = (tagText? quote rest).map (run ++ ·) := by
  induction run with
  | nil => simp
  | cons b run ih =>
    have hb := h b List.mem_cons_self
    have ih := ih fun b' hb' => h b' (List.mem_cons_of_mem b hb')
    rw [List.cons_append, tagText?, if_neg (fun hstop => hb.1 hstop.2), hb.2, ih, Option.map_map]
    rfl

theorem quoteAfter_of_not_isOctet {quote : Option Char} (hquote : ∀ c ∈ quote, IsOctet c)
    {c : Char} (hc : ¬IsOctet c) : Markup.quoteAfter quote c = quote := by
  have hne : ∀ d, IsOctet d → c ≠ d := by
    rintro d hd rfl
    exact hc hd
  cases quote with
  | none => exact if_neg (not_or.mpr ⟨hne '"' (by decide), hne '\'' (by decide)⟩)
  | some quote => exact if_neg (hne quote (hquote quote rfl))

/-- A character that does not end the tag is passed over with all of its bytes. -/
theorem tagText?_char {quote : Option Char} (hquote : ∀ c ∈ quote, IsOctet c) {c : Char}
    (hc : ¬(quote = none ∧ c = '>')) (rest : List UInt8) :
    tagText? (quote.map Char.toUInt8) (String.utf8EncodeChar c ++ rest) =
      (tagText? ((Markup.quoteAfter quote c).map Char.toUInt8) rest).map
        (String.utf8EncodeChar c ++ ·) := by
  by_cases hoctet : IsOctet c
  · have hstop : ¬(quote.map Char.toUInt8 = none ∧ c.toUInt8 = '>'.toUInt8) := by
      rwa [Option.map_eq_none_iff, toUInt8_inj hoctet (by decide)]
    rw [← quoteAfter_of_mem hquote (toUInt8_mem hoctet), utf8EncodeChar_of_isOctet hoctet,
      List.singleton_append, tagText?, if_neg hstop]
    rfl
  · have hsame := quoteAfter_of_not_isOctet hquote hoctet
    rw [hsame]
    apply tagText?_append
    intro b hb
    have hstop : b ≠ '>'.toUInt8 := by
      intro heq
      rw [eq_toUInt8_iff (by decide) hb] at heq
      subst heq
      exact hoctet (by decide)
    exact ⟨hstop, by rw [quoteAfter_of_mem hquote hb, hsame]⟩

theorem tagText?_bytes {quote : Option Char} (hquote : ∀ c ∈ quote, IsOctet c) (cs : List Char) :
    tagText? (quote.map Char.toUInt8) (bytes cs) =
      (Markup.splitTag quote cs).map fun split => bytes split.1 := by
  induction cs generalizing quote with
  | nil => rfl
  | cons c cs ih =>
    rw [Markup.splitTag]
    by_cases hstop : quote = none ∧ c = '>'
    · obtain ⟨rfl, rfl⟩ := hstop
      rfl
    · rw [bytes_cons, tagText?_char hquote hstop, ih (isOctet_quoteAfter hquote c), if_neg hstop,
        Option.map_map, Option.map_map]
      rfl

theorem tagToken_bytes (text : List Char) : tagToken (bytes text) = .of (Markup.tagToken text) := by
  rw [tagToken, Markup.tagToken]
  by_cases hlast : text.getLast? = some '/'
  · rw [if_pos hlast, if_pos ((getLast?_bytes (by decide)).mpr hlast),
      dropLast_bytes (by decide) hlast]
    rfl
  · rw [if_neg hlast, if_neg (mt (getLast?_bytes (by decide)).mp hlast)]
    rfl

theorem readTag_bytes (position : Nat) (cs : List Char) :
    readTag position (bytes cs) =
      (Markup.readTag position cs).map (Lexeme.of position) := by
  have hquote : ∀ c ∈ (none : Option Char), IsOctet c := by simp
  have htext := tagText?_bytes hquote cs
  rw [Option.map_none] at htext
  rw [readTag, Markup.readTag, htext]
  cases Markup.splitTag none cs with
  | none => rfl
  | some split =>
    simp only [Option.map_some, tagToken_bytes, length_bytes, Except.map, Lexeme.of,
      Except.ok.injEq, Lexeme.mk.injEq, true_and]
    omega

end Octets
end FirmwareTests
