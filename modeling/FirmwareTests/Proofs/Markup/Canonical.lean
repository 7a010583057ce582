import FirmwareTests.Proofs.Markup.Rendering

/-!
# Documents in canonical spelling

A piece of markup is spelled canonically when nothing about its spelling is lost with its
token: end tags without white space, keywords in capital letters, one space before a
document type. A text that consists of such pieces is the rendering of its tokens.
-/

namespace FirmwareTests
namespace Markup

/-- Whether the text of a token, after its opening bracket, has the canonical spelling: an
end tag has no white space in it, the keyword of a CDATA section is in capital letters,
and so is that of a document type, with exactly one space behind it. -/
def SpelledCanonically : Token → List Char → Prop
  | .close tag, _ => ∀ c ∈ tag.text, isSpace c = false
  | .cdata _, written => "![CDATA[".toList <+: written
  | .doctype _, written =>
    ∃ first more, isSpace first = false ∧ written = "!DOCTYPE ".toList ++ first :: more
  | _, _ => True

/-- A text that consists of canonically spelled pieces, with its tokens. -/
inductive Canonical : List Char → List Token → Prop
  | nil : Canonical [] []
  | text {raw cs : List Char} {ts : List Token} : raw ≠ [] → '<' ∉ raw →
      (∀ t ∈ ts.head?, t.isText = false) → Canonical cs ts → Canonical (raw ++ cs) (.text raw :: ts)
  | markup {t : Token} {written cs : List Char} {ts : List Token} : Spells t written →
      SpelledCanonically t written → Canonical cs ts → Canonical ('<' :: (written ++ cs)) (t :: ts)

/-! ### Canonical markup -/

/-- Letters that are followed by the same as a keyword of their length are the keyword. -/
theorem eq_keyword {letters keyword rest rest' : List Char}
    (hletters : letters.map Char.toUpper = keyword)
    (h : keyword ++ rest = letters ++ rest') : letters = keyword ∧ rest = rest' := by
  have hlength : keyword.length = letters.length := by
    rw [← hletters, List.length_map]
  obtain ⟨hkeyword, hrest⟩ := List.append_inj h hlength
  exact ⟨hkeyword.symm, hrest⟩

theorem render_cdata_of_canonical {letters raw : List Char}
    (hletters : letters.map Char.toUpper = ['[', 'C', 'D', 'A', 'T', 'A'])
    (h : "![CDATA[".toList <+: '!' :: ((letters ++ '[' :: (raw ++ [']', ']'])) ++ ['>'])) :
    (Token.cdata raw).render =
      '<' :: '!' :: ((letters ++ '[' :: (raw ++ [']', ']'])) ++ ['>']) := by
  obtain ⟨rest, hrest⟩ := h
  have hsplit : ['[', 'C', 'D', 'A', 'T', 'A'] ++ '[' :: rest =
      letters ++ ('[' :: (raw ++ [']', ']']) ++ ['>']) := by
    simpa using hrest
  obtain ⟨rfl, -⟩ := eq_keyword hletters hsplit
  simp [Token.render_cdata]

theorem render_doctype_of_canonical {letters spaces more more' : List Char} {first first' : Char}
    (hletters : letters.map Char.toUpper = ['D', 'O', 'C', 'T', 'Y', 'P', 'E'])
    (hspaces : ∀ c ∈ spaces, isSpace c = true) (hfirst : isSpace first = false)
    (hfirst' : isSpace first' = false)
    (h : '!' :: ((letters ++ (spaces ++ first :: more)) ++ ['>']) =
      "!DOCTYPE ".toList ++ first' :: more') :
    (Token.doctype (first :: more)).render =
      '<' :: '!' :: ((letters ++ (spaces ++ first :: more)) ++ ['>']) := by
  have hsplit : ['D', 'O', 'C', 'T', 'Y', 'P', 'E'] ++ ' ' :: first' :: more' =
      letters ++ (spaces ++ first :: more ++ ['>']) := by
    simpa using h.symm
  obtain ⟨rfl, hrest⟩ := eq_keyword hletters hsplit
  -- There is a space, since the content begins with none, and no second one.
  match spaces with
  | [] =>
    obtain ⟨rfl, -⟩ := List.cons.inj hrest
    cases hfirst
  | [c] =>
    obtain ⟨rfl, -⟩ := List.cons.inj hrest
    simp [Token.render_doctype]
  | c :: d :: _ =>
    obtain ⟨-, hmore⟩ := List.cons.inj hrest
    obtain ⟨rfl, -⟩ := List.cons.inj hmore
    rw [hspaces first' (by simp)] at hfirst'
    cases hfirst'

theorem Spells.render_eq {t : Token} {written : List Char} (h : Spells t written)
    (hcanonical : SpelledCanonically t written) : t.render = '<' :: written := by
  cases h with
  | close hnot => rw [Token.render_close, EndTag.name_eq hcanonical]
  | instruction hnot hne => exact Token.render_instruction _
  | @tag text hwhole hhead =>
    unfold tagToken
    split
    · next hlast =>
      obtain ⟨front, rfl⟩ := List.getLast?_eq_some_iff.mp hlast
      simp [Token.render_empty]
    · exact Token.render_start _
  | @bang kind c text token hkind hwhole htoken =>
    have hwritten : c :: (text ++ ['>']) = (c :: text) ++ ['>'] := rfl
    rw [hwritten] at hcanonical ⊢
    cases kind with
    | comment =>
      obtain ⟨raw, rfl, htext⟩ := exists_eq_comment hwhole htoken
      rw [Token.render_comment, htext]
      simp
    | cdata =>
      obtain ⟨letters, raw, hletters, rfl, htext⟩ := exists_eq_cdata hwhole htoken
      rw [htext] at hcanonical ⊢
      exact render_cdata_of_canonical hletters hcanonical
    | doctype =>
      obtain ⟨letters, spaces, first, more, hletters, hspaces, hfirst, rfl, htext⟩ :=
        exists_eq_doctype htoken
      rw [htext] at hcanonical ⊢
      obtain ⟨first', more', hfirst', hwritten⟩ := hcanonical
      exact render_doctype_of_canonical hletters hspaces hfirst hfirst' hwritten

theorem Spells.legible {t : Token} {written : List Char} (h : Spells t written)
    (hrender : t.render = '<' :: written) : t.Legible := by
  have htext := h.isText_eq_false
  cases t with
  | text => cases htext
  | _ => exact ⟨written, hrender, h⟩

/-! ### Canonical texts -/

namespace Canonical

variable {cs : List Char} {ts : List Token}

theorem render_eq (h : Canonical cs ts) : render ts = cs := by
  induction h with
  | nil => rfl
  | text _ _ _ _ ih => rw [render_cons, Token.render_text, ih]
  | markup hspells hcanonical _ ih =>
    rw [render_cons, hspells.render_eq hcanonical, ih, List.cons_append]

theorem spelled (h : Canonical cs ts) : Spelled ts := by
  induction h with
  | nil => trivial
  | text hne hnot hnext _ ih => exact ⟨⟨hne, hnot⟩, fun _ => hnext, ih⟩
  | markup hspells hcanonical _ ih =>
    refine ⟨hspells.legible (hspells.render_eq hcanonical), ?_, ih⟩
    intro htext
    rw [hspells.isText_eq_false] at htext
    cases htext

end Canonical

end Markup
end FirmwareTests
