import FirmwareTests.Proofs.Octets.Tags

/-!
# Comments, CDATA sections and document types as bytes

A construct that opens with an exclamation mark ends at a bracket that the bytes before it
decide on, and its opening and its closing are cut off. Both are characters of one byte, also in
letters of the other case; and where the length of a comment counts, it counts such characters.
-/

namespace FirmwareTests
namespace Octets

open Markup (BangKind Malformed)
open Text

/-! ### The bracket that ends a construct -/

theorem bangKind?_of_mem {c : Char} {b : UInt8} (hb : b ∈ String.utf8EncodeChar c) :
    bangKind? b = BangKind.ofChar? c := by
  simp only [bangKind?, BangKind.ofChar?, eq_toUInt8_iff (c := '[') (by decide) hb,
    eq_toUInt8_iff (c := '-') (by decide) hb, eq_toUInt8_iff (c := 'D') (by decide) hb,
    eq_toUInt8_iff (c := 'd') (by decide) hb]

theorem endsTwice_bytes {c : Char} (hc : IsOctet c) (cs : List Char) :
    endsTwice c.toUInt8 (bytes cs.reverse) = [c, c].isPrefixOf cs := by
  rw [Bool.eq_iff_iff, endsTwice, Bool.and_eq_true, beq_iff_eq, beq_iff_eq, getLast?_bytes hc,
    List.isPrefixOf_iff_prefix]
  constructor
  · rintro ⟨hlast, hsecond⟩
    rw [dropLast_bytes hc hlast, getLast?_bytes hc] at hsecond
    match cs with
    | [] => simp at hlast
    | [d] => simp at hsecond
    | d :: e :: cs =>
      obtain rfl : d = c := by simpa using hlast
      obtain rfl : e = d := by simpa using hsecond
      exact ⟨cs, rfl⟩
  · rintro ⟨front, rfl⟩
    have hlast : ([c, c] ++ front).reverse.getLast? = some c := by simp
    rw [dropLast_bytes hc hlast, getLast?_bytes hc]
    exact ⟨hlast, by simp⟩

/-- A comment that closes after at most four characters would close in its own opening, where
every character is of one byte. -/
theorem length_bytes_comment {before : List Char} (hopening : ['-', '!'] <:+ before)
    (hclosing : ['-', '-'] <+: before) :
    4 < (bytes before.reverse).length ↔ 4 < before.length := by
  obtain ⟨front, rfl⟩ := hopening
  match front with
  | [] => simp at hclosing
  | [a] =>
    obtain rfl : '-' = a := by simpa using hclosing
    decide
  | [a, b] =>
    obtain ⟨rfl, rfl⟩ : '-' = a ∧ '-' = b := by simpa using hclosing
    decide
  | a :: b :: c :: front =>
    have hle := length_le_byteLength ((a :: b :: c :: front) ++ ['-', '!']).reverse
    rw [List.length_reverse] at hle
    have hlong : 4 < ((a :: b :: c :: front) ++ ['-', '!']).length := by simp
    rw [length_bytes]
    exact iff_of_true (Nat.lt_of_lt_of_le hlong hle) hlong

theorem ends_bytes {kind : BangKind} {before : List Char}
    (hcomment : kind = .comment → ['-', '!'] <:+ before) :
    ends kind (bytes before.reverse) = kind.ends before := by
  cases kind with
  | comment =>
    rw [ends, endsTwice_bytes (by decide)]
    by_cases hclosing : ['-', '-'] <+: before
    · rw [decide_eq_decide.mpr (length_bytes_comment (hcomment rfl) hclosing)]
      rfl
    · have hfalse : ['-', '-'].isPrefixOf before = false := by
        rwa [← Bool.not_eq_true, List.isPrefixOf_iff_prefix]
      have hends : BangKind.ends .comment before =
          (decide (4 < before.length) && ['-', '-'].isPrefixOf before) := rfl
      rw [hends, hfalse, Bool.and_false, Bool.and_false]
  | cdata => exact endsTwice_bytes (by decide) before
  | doctype =>
    rw [ends, count_bytes (by decide), count_bytes (by decide), List.count_reverse,
      List.count_reverse]
    rfl

theorem bangText?_append (kind : BangKind) {run : List UInt8} (h : '>'.toUInt8 ∉ run)
    (before rest : List UInt8) :
    bangText? kind before (run ++ rest) = bangText? kind (before ++ run) rest := by
  induction run generalizing before with
  | nil => simp
  | cons b run ih =>
    rw [List.mem_cons, not_or] at h
    rw [List.cons_append, bangText?, if_neg (fun hstop => h.1 hstop.1.symm), ih h.2,
      List.append_assoc, List.singleton_append]

theorem bangText?_bytes {kind : BangKind} (before : List Char)
    (hcomment : kind = .comment → ['-', '!'] <:+ before) (cs : List Char) :
    bangText? kind (bytes before.reverse) (bytes cs) =
      (Markup.splitBang kind before cs).map fun split => bytes split.1 := by
  induction cs generalizing before with
  | nil => rfl
  | cons c cs ih =>
    have hnext : kind = .comment → ['-', '!'] <:+ c :: before :=
      fun hkind => (hcomment hkind).trans (List.suffix_cons c before)
    have hbefore : bytes before.reverse ++ String.utf8EncodeChar c =
        bytes (c :: before).reverse := by
      rw [List.reverse_cons, bytes_concat]
    have ih := ih (c :: before) hnext
    rw [← hbefore] at ih
    rw [Markup.splitBang]
    by_cases hc : c = '>'
    · subst hc
      rw [bytes_cons_of_isOctet (by decide), bangText?, ends_bytes hcomment]
      by_cases hends : kind.ends before = true
      · rw [if_pos ⟨rfl, hends⟩, if_pos ⟨rfl, hends⟩]
        rfl
      · rw [if_neg (fun hstop => hends hstop.2), if_neg (fun hstop => hends hstop.2)]
        exact ih
    · have hnot : '>'.toUInt8 ∉ String.utf8EncodeChar c :=
        fun hb => hc ((eq_toUInt8_iff (by decide) hb).mp rfl)
      rw [bytes_cons, bangText?_append kind hnot, if_neg (fun hstop => hc hstop.1)]
      exact ih

/-! ### Openings in letters of either case -/

theorem upper_toUInt8 {c : Char} (hc : IsOctet c) : upper c.toUInt8 = c.toUpper.toUInt8 := by
  have hbyte := toNat_toUInt8 hc
  have hmax := isOctet_iff.mp hc
  have hrange : 'a'.toUInt8 ≤ c.toUInt8 ∧ c.toUInt8 ≤ 'z'.toUInt8 ↔
      'a'.val ≤ c.val ∧ c.val ≤ 'z'.val := by
    rw [UInt8.le_iff_toNat_le, UInt8.le_iff_toNat_le, UInt32.le_iff_toNat_le,
      UInt32.le_iff_toNat_le, hbyte]
    rfl
  rw [upper]
  unfold Char.toUpper
  by_cases hletter : 'a'.val ≤ c.val ∧ c.val ≤ 'z'.val
  · rw [if_pos (hrange.mpr hletter), dif_pos hletter, ← UInt8.toNat_inj]
    have hlow : 97 ≤ c.val.toNat := UInt32.le_iff_toNat_le.mp hletter.1
    have hshift : ('A'.val - 'a'.val).toNat = 4294967264 := rfl
    have h20 : (0x20 : UInt8).toNat = 32 := rfl
    have hsum : (c.val + ('A'.val - 'a'.val)).toUInt8.toNat =
        (c.val.toNat + 4294967264) % 4294967296 % 256 := by
      rw [UInt32.toNat_toUInt8, UInt32.toNat_add, hshift]
    refine Eq.trans ?_ hsum.symm
    rw [UInt8.toNat_sub, hbyte, h20]
    omega
  · rw [if_neg (mt hrange.mp hletter), dif_neg hletter]

theorem isOctet_toUpper_iff {c : Char} : IsOctet c.toUpper ↔ IsOctet c := by
  rw [isOctet_iff, isOctet_iff]
  unfold Char.toUpper
  split
  · next hletter =>
    have hlow : 97 ≤ c.val.toNat := UInt32.le_iff_toNat_le.mp hletter.1
    have hhigh : c.val.toNat ≤ 122 := UInt32.le_iff_toNat_le.mp hletter.2
    have hshift : ('A'.val - 'a'.val).toNat = 4294967264 := rfl
    dsimp only
    rw [UInt32.toNat_add, hshift]
    omega
  · rfl

theorem upper_of_le {b : UInt8} (hb : 0x80 ≤ b.toNat) : upper b = b := by
  have hz : 'z'.toUInt8.toNat = 122 := rfl
  have hnot : ¬b ≤ 'z'.toUInt8 := by
    rw [UInt8.le_iff_toNat_le, hz]
    omega
  exact if_neg fun hletter => hnot hletter.2

/-- The first byte of a character, made a capital letter, is that of an opening. -/
theorem upper_eq_iff {o c : Char} (ho : IsOctet o) {b : UInt8} (hb : b ∈ String.utf8EncodeChar c) :
    upper b = o.toUInt8 ↔ c.toUpper = o := by
  by_cases hc : IsOctet c
  · rw [utf8EncodeChar_of_isOctet hc, List.mem_singleton] at hb
    rw [hb, upper_toUInt8 hc, toUInt8_inj (isOctet_toUpper_iff.mpr hc) ho]
  · have hle := le_of_mem_utf8EncodeChar hc hb
    have hmax := isOctet_iff.mp ho
    rw [← toNat_toUInt8 ho] at hmax
    constructor
    · intro heq
      rw [upper_of_le hle] at heq
      rw [heq] at hle
      omega
    · rintro rfl
      exact absurd (isOctet_toUpper_iff.mp ho) hc

theorem map_upper_bytes_iff {opening : List Char} (h : ∀ o ∈ opening, IsOctet o)
    (cs : List Char) : ((bytes cs).take opening.length).map upper = bytes opening ↔
      (cs.take opening.length).map Char.toUpper = opening := by
  induction opening generalizing cs with
  | nil => simp
  | cons o opening ih =>
    have ho := h o List.mem_cons_self
    have ih := ih fun o' ho' => h o' (List.mem_cons_of_mem o ho')
    cases cs with
    | nil => simp [bytes_cons_of_isOctet ho]
    | cons c cs =>
      obtain ⟨b, bs, heq, hb⟩ := exists_utf8EncodeChar_eq_cons c
      have hfirst := upper_eq_iff ho hb
      rw [bytes_cons, heq, List.cons_append, bytes_cons_of_isOctet ho, List.length_cons,
        List.take_succ_cons, List.take_succ_cons, List.map_cons, List.map_cons, List.cons.injEq,
        List.cons.injEq, hfirst]
      apply and_congr_right
      rintro rfl
      have hone := utf8EncodeChar_of_isOctet (isOctet_toUpper_iff.mp ho)
      obtain ⟨-, rfl⟩ := List.cons.inj (heq.symm.trans hone)
      exact ih cs

theorem drop_bytes_of_opening {opening : List Char} (h : ∀ o ∈ opening, IsOctet o)
    {cs : List Char} (hopening : (cs.take opening.length).map Char.toUpper = opening) :
    (bytes cs).drop opening.length = bytes (cs.drop opening.length) := by
  induction opening generalizing cs with
  | nil => rfl
  | cons o opening ih =>
    cases cs with
    | nil => rfl
    | cons c cs =>
      rw [List.length_cons, List.take_succ_cons, List.map_cons] at hopening
      obtain ⟨rfl, hrest⟩ := List.cons.inj hopening
      have hc := isOctet_toUpper_iff.mp (h _ List.mem_cons_self)
      rw [bytes_cons_of_isOctet hc, List.length_cons, List.drop_succ_cons, List.drop_succ_cons]
      exact ih (fun o' ho' => h o' (List.mem_cons_of_mem _ ho')) hrest

theorem content?_bytes (kind : BangKind) (text : List Char) :
    content? kind (bytes text) = (kind.content? text).map bytes := by
  have hall : (kind.opening.all fun o => decide (IsOctet o)) = true := by
    cases kind <;> rfl
  have hoctets : ∀ o ∈ kind.opening, IsOctet o :=
    fun o ho => of_decide_eq_true (List.all_eq_true.mp hall o ho)
  have hlength : (bytes kind.opening).length = kind.opening.length := by
    cases kind <;> rfl
  rw [content?, BangKind.content?_eq, hlength]
  by_cases hopening : (text.take kind.opening.length).map Char.toUpper = kind.opening
  · rw [if_pos hopening, if_pos ((map_upper_bytes_iff hoctets text).mpr hopening),
      drop_bytes_of_opening hoctets hopening]
    rfl
  · rw [if_neg hopening, if_neg (mt (map_upper_bytes_iff hoctets text).mp hopening)]
    rfl

/-! ### The tokens of constructs -/

theorem dropLast_dropLast_bytes {c : Char} (hc : IsOctet c) (cs : List Char) :
    (bytes (cs ++ [c, c])).dropLast.dropLast = bytes cs := by
  have hbytes : bytes (cs ++ [c, c]) = bytes cs ++ [c.toUInt8] ++ [c.toUInt8] := by
    rw [bytes_append, bytes_cons_of_isOctet hc, bytes_cons_of_isOctet hc, List.append_assoc]
    rfl
  rw [hbytes, List.dropLast_concat, List.dropLast_concat]

/-- The content of a comment or of a CDATA section keeps its two closing characters. -/
theorem exists_content_comment {text content : List Char}
    (hwhole : BangKind.comment.isWhole ['!'] text = true)
    (hcontent : BangKind.comment.content? ('!' :: text) = some content) :
    ∃ raw, content = raw ++ ['-', '-'] := by
  obtain ⟨raw, -, rfl⟩ := Markup.exists_eq_comment hwhole
    (BangKind.token_comment_eq_ok_iff.mpr ⟨content, hcontent, rfl⟩)
  have hraw := BangKind.content?_opening .comment (raw ++ ['-', '-'])
  exact ⟨raw, Option.some_inj.mp (hcontent.symm.trans hraw)⟩

theorem exists_content_cdata {text content : List Char}
    (hwhole : BangKind.cdata.isWhole ['!'] text = true)
    (hcontent : BangKind.cdata.content? ('!' :: text) = some content) :
    ∃ raw, content = raw ++ [']', ']'] := by
  obtain ⟨letters, raw, hletters, -, rfl⟩ := Markup.exists_eq_cdata hwhole
    (BangKind.token_cdata_eq_ok_iff.mpr ⟨content, hcontent, rfl⟩)
  have hlength : letters.length = 6 := by
    simpa using congrArg List.length hletters
  rw [BangKind.content?_eq] at hcontent
  split at hcontent
  · cases hcontent
    have hopening : ('!' :: (letters ++ ['['])).length = 8 := by simp [hlength]
    have hdrop : (('!' :: (letters ++ ['['])) ++ (raw ++ [']', ']'])).drop 8 =
        raw ++ [']', ']'] := List.drop_left' hopening
    exact ⟨raw, by simpa [BangKind.opening] using hdrop⟩
  · cases hcontent

theorem bangToken_bytes {kind : BangKind} {text : List Char}
    (hwhole : kind.isWhole ['!'] text = true) :
    bangToken kind (bytes ('!' :: text)) = (kind.token ('!' :: text)).map Token.of := by
  have hbytes := content?_bytes kind ('!' :: text)
  cases hcontent : kind.content? ('!' :: text) with
  | none =>
    rw [hcontent] at hbytes
    cases kind <;> simp only [bangToken, BangKind.token, hbytes, hcontent] <;> rfl
  | some content =>
    rw [hcontent] at hbytes
    cases kind with
    | comment =>
      obtain ⟨raw, rfl⟩ := exists_content_comment hwhole hcontent
      simp only [bangToken, BangKind.token, hbytes, hcontent, Option.map_some,
        dropLast_dropLast_bytes (c := '-') (by decide)]
      simp [Except.map, Token.of]
    | cdata =>
      obtain ⟨raw, rfl⟩ := exists_content_cdata hwhole hcontent
      simp only [bangToken, BangKind.token, hbytes, hcontent, Option.map_some,
        dropLast_dropLast_bytes (c := ']') (by decide)]
      simp [Except.map, Token.of]
    | doctype =>
      simp only [bangToken, BangKind.token, hbytes, hcontent, Option.map_some,
        agree_isSpace.all_bytes, agree_isSpace.dropWhile_bytes]
      split <;> rfl

/-- After the exclamation mark, where the second mark of a comment is still to come. -/
theorem bangText?_opening {kind : BangKind} {c : Char} (hkind : BangKind.ofChar? c = some kind)
    (cs : List Char) : bangText? kind ['!'.toUInt8] (bytes (c :: cs)) =
      (Markup.splitBang kind ['!'] (c :: cs)).map fun split => bytes split.1 := by
  by_cases hcomment : kind = .comment
  · subst hcomment
    obtain rfl : c = '-' := by
      by_contra hne
      rw [BangKind.ofChar?, if_neg hne] at hkind
      split_ifs at hkind <;> cases hkind
    exact bangText?_bytes ['-', '!'] (fun _ => List.suffix_rfl) cs
  · exact bangText?_bytes ['!'] (fun h => absurd h hcomment) (c :: cs)

theorem readBang_bytes (position : Nat) (cs : List Char) :
    readBang position (bytes cs) = (Markup.readBang position cs).map (Lexeme.of position) := by
  cases cs with
  | nil => rfl
  | cons c cs =>
    obtain ⟨b, bs, heq, hb⟩ := exists_utf8EncodeChar_eq_cons c
    have hbytes : bytes (c :: cs) = b :: (bs ++ bytes cs) := by
      rw [bytes_cons, heq, List.cons_append]
    rw [hbytes, readBang, bangKind?_of_mem hb, Markup.readBang]
    dsimp only
    cases hkind : BangKind.ofChar? c with
    | none =>
      rw [heq]
      rfl
    | some kind =>
      have htext := bangText?_opening hkind cs
      rw [hbytes] at htext
      dsimp only
      rw [htext]
      cases hsplit : Markup.splitBang kind ['!'] (c :: cs) with
      | none => rfl
      | some split =>
        obtain ⟨text, rest⟩ := split
        obtain ⟨body, rfl, -, hwhole⟩ := Markup.eq_append_of_splitBang hsplit
        simp only [Option.map_some, List.reverse_singleton, List.singleton_append,
          bangToken_bytes hwhole, length_bytes]
        cases kind.token ('!' :: body) with
        | error error => rfl
        | ok token =>
          simp only [Except.map, Lexeme.of, Except.ok.injEq, Lexeme.mk.injEq, true_and]
          omega

end Octets
end FirmwareTests
