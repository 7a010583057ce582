import FirmwareTests.Proofs.Markup.Nesting

/-!
# Reading what was written

The rendering of a row of tokens is read as the same row, but for a byte order mark at
its front. A tag in the row may be replaced by another one whose text is whole.
-/

namespace FirmwareTests
namespace Markup

/-! ### Tags among the tokens -/

def Token.tag? : Token → Option Tag
  | start tag => some tag
  | empty tag => some tag
  | _ => none

def Token.withTag (new : Tag) : Token → Token
  | start _ => start new
  | empty _ => empty new
  | token => token

@[simp] theorem Token.tag?_usual (t : Token) : t.usual.tag? = t.tag? := by
  cases t <;> rfl

@[simp] theorem Token.depthAfter_withTag (new : Tag) (depth : Nat) (t : Token) :
    (t.withTag new).depthAfter depth = t.depthAfter depth := by
  cases t <;> rfl

theorem Token.usual_of_tag? {t : Token} {tag : Tag} (h : t.tag? = some tag) : t.usual = t := by
  cases t with
  | start | empty => rfl
  | _ => cases h

theorem Token.namesAfter_withTag {t : Token} {tag new : Tag} (h : t.tag? = some tag)
    (hname : new.name = tag.name) (names : List (List Char)) :
    (t.withTag new).namesAfter names = t.namesAfter names := by
  cases t with
  | start =>
    cases h
    simp [withTag, namesAfter, hname]
  | empty => rfl
  | _ => cases h

theorem Token.isText_of_tag? {t : Token} {tag : Tag} (h : t.tag? = some tag) :
    t.isText = false := by
  cases t with
  | text => cases h
  | _ => rfl

theorem Token.tag?_withTag {t : Token} {tag : Tag} (h : t.tag? = some tag) (new : Tag) :
    (t.withTag new).tag? = some new := by
  cases t with
  | start | empty => rfl
  | _ => cases h

theorem isWithinTag_of_spells {t : Token} {written : List Char} (h : Spells t written)
    {tag : Tag} (htag : t.tag? = some tag) : isWithinTag none tag.text = true := by
  cases h with
  | close | instruction => cases htag
  | @tag text hwhole hhead =>
    by_cases hlast : text.getLast? = some '/'
    · obtain ⟨front, rfl⟩ := List.getLast?_eq_some_iff.mp hlast
      rw [tagToken, if_pos hlast] at htag
      cases htag
      rw [List.dropLast_concat]
      exact ((isWithinTag_append none front ['/']).mp hwhole.1).1
    · rw [tagToken, if_neg hlast] at htag
      cases htag
      exact hwhole.1
  | @bang kind c text token hkind hwhole htoken =>
    cases kind with
    | comment =>
      obtain ⟨_, -, rfl⟩ := BangKind.token_comment_eq_ok_iff.mp htoken
      cases htag
    | cdata =>
      obtain ⟨_, -, rfl⟩ := BangKind.token_cdata_eq_ok_iff.mp htoken
      cases htag
    | doctype =>
      obtain ⟨_, -, -, rfl⟩ := BangKind.token_doctype_eq_ok_iff.mp htoken
      cases htag

theorem Token.Legible.isWithinTag {t : Token} (h : t.Legible) {tag : Tag}
    (htag : t.tag? = some tag) : isWithinTag none tag.text = true := by
  cases t with
  | start tag' | empty tag' =>
    obtain ⟨written, -, hspells⟩ := h
    exact isWithinTag_of_spells hspells htag
  | _ => cases htag

/-- A tag is legible when its text is whole and cannot be taken for other markup. -/
theorem legible_withTag {t : Token} {tag new : Tag} (htag : t.tag? = some tag)
    (hwhole : IsWholeTag new.text) {first : Char} {more : List Char}
    (htext : new.text = first :: more) (hfirst : first ∉ ['!', '/', '?'])
    (hlast : new.text.getLast? ≠ some '/') : (t.withTag new).Legible := by
  simp only [List.mem_cons, List.not_mem_nil, or_false, not_or] at hfirst
  have hhead : ∀ rest, ∀ c ∈ (new.text ++ rest).head?, c ≠ '!' ∧ c ≠ '/' ∧ c ≠ '?' := by
    intro rest c hc
    rw [htext] at hc
    obtain rfl : first = c := by simpa using hc
    exact hfirst
  cases t with
  | start tag' =>
    have hlegible := legible_tagToken hwhole (by simpa using hhead [])
    rwa [tagToken, if_neg hlast] at hlegible
  | empty tag' =>
    have hslash : IsWholeTag ['/'] := ⟨rfl, rfl⟩
    have hlegible := legible_tagToken (hwhole.append hslash) (hhead ['/'])
    rwa [tagToken, if_pos (by simp), List.dropLast_concat] at hlegible
  | _ => cases htag

/-! ### The byte order mark -/

/-- A row whose first text, if the row begins with one, is without a byte order mark. -/
def dropMark : List Token → List Token
  | .text raw :: ts =>
    match dropByteOrderMark raw with
    | [] => ts
    | c :: cs => .text (c :: cs) :: ts
  | ts => ts

theorem dropByteOrderMark_cons_of_ne {c : Char} (hc : c ≠ '\uFEFF') (cs : List Char) :
    dropByteOrderMark (c :: cs) = c :: cs := by
  unfold dropByteOrderMark
  split
  · next h => exact absurd (List.cons.inj h).1 hc
  · rfl

theorem dropByteOrderMark_append {raw : List Char} (hne : raw ≠ []) (cs : List Char) :
    dropByteOrderMark (raw ++ cs) = dropByteOrderMark raw ++ cs := by
  cases raw with
  | nil => exact absurd rfl hne
  | cons c raw =>
    by_cases hc : c = '\uFEFF'
    · subst hc
      rfl
    · rw [List.cons_append, dropByteOrderMark_cons_of_ne hc, dropByteOrderMark_cons_of_ne hc,
        List.cons_append]

theorem mem_of_mem_dropByteOrderMark {c : Char} {cs : List Char}
    (h : c ∈ dropByteOrderMark cs) : c ∈ cs := by
  unfold dropByteOrderMark at h
  split at h
  · exact List.mem_cons_of_mem _ h
  · exact h

theorem dropMark_of_not_isText {t : Token} (h : t.isText = false) (ts : List Token) :
    dropMark (t :: ts) = t :: ts := by
  cases t with
  | text raw => cases h
  | _ => rfl

theorem Spelled.dropMark {ts : List Token} (h : Spelled ts) : Spelled (dropMark ts) := by
  unfold Markup.dropMark
  split
  · next raw ts =>
    split
    · exact h.tail
    · next c cs hraw =>
      refine ⟨⟨by simp, ?_⟩, h.2.1, h.tail⟩
      rw [← hraw]
      exact fun hmem => h.1.2 (mem_of_mem_dropByteOrderMark hmem)
  · exact h

theorem render_dropMark {ts : List Token} (h : Spelled ts) :
    render (dropMark ts) = dropByteOrderMark (render ts) := by
  cases ts with
  | nil => rfl
  | cons t ts =>
    by_cases htext : t.isText = true
    · obtain ⟨raw, rfl⟩ : ∃ raw, t = .text raw := by
        cases t with
        | text raw => exact ⟨raw, rfl⟩
        | _ => cases htext
      rw [render_cons, Token.render_text, dropByteOrderMark_append h.1.1, dropMark]
      split
      · next hraw => rw [hraw, List.nil_append]
      · next c cs hraw => rw [hraw, render_cons, Token.render_text]
    · rw [Bool.not_eq_true] at htext
      obtain ⟨written, hrender, -⟩ := h.1.exists_spells htext
      rw [dropMark_of_not_isText htext, render_cons, hrender, List.cons_append,
        dropByteOrderMark_cons_of_ne (by decide)]

theorem openNames_dropMark (names : List (List Char)) (ts : List Token) :
    openNames names (dropMark ts) = openNames names ts := by
  unfold dropMark
  split
  · split <;> rfl
  · rfl

/-- A rendering is read as the row it was made from, without a byte order mark. -/
theorem exists_read_render {ts : List Token} (h : Spelled ts)
    (hnames : (openNames [] ts).isSome) : ∃ located,
      read (render ts) = ⟨located, .complete⟩ ∧ located.map Located.token = dropMark ts := by
  obtain ⟨located, hscans, hlocated⟩ := scans_render h.dropMark 0
  refine ⟨located, read_eq_complete_iff.mpr ⟨?_, ?_⟩, hlocated⟩
  · rwa [← render_dropMark h]
  · rwa [hlocated, openNames_dropMark]

theorem dropMark_append {front : List Token} {t : Token} (h : t.isText = false)
    (back : List Token) : dropMark (front ++ t :: back) = dropMark front ++ t :: back := by
  cases front with
  | nil => exact dropMark_of_not_isText h back
  | cons u front =>
    cases u with
    | text raw =>
      simp only [List.cons_append, dropMark]
      split <;> rfl
    | _ => rfl

theorem mem_of_mem_dropMark {ts : List Token} {t : Token} (h : t ∈ dropMark ts)
    (htext : t.isText = false) : t ∈ ts := by
  unfold dropMark at h
  split at h
  · split at h
    · exact List.mem_cons_of_mem _ h
    · rcases List.mem_cons.mp h with rfl | h
      · cases htext
      · exact List.mem_cons_of_mem _ h
  · exact h

theorem dropMark_text {raw : List Char} (hne : raw ≠ []) (hmark : raw.head? ≠ some '\uFEFF')
    (ts : List Token) : dropMark (.text raw :: ts) = .text raw :: ts := by
  cases raw with
  | nil => exact absurd rfl hne
  | cons c raw =>
    have hc : c ≠ '\uFEFF' := by simpa using hmark
    simp only [dropMark, dropByteOrderMark_cons_of_ne hc]

/-- A document keeps its first text when it does not begin with a byte order mark. -/
theorem dropMark_of_scans {position : Nat} {cs : List Char} {ts : List Located}
    (h : Scans position cs ts) (hmark : cs.head? ≠ some '\uFEFF') :
    dropMark ((ts.map Located.token).map Token.usual) =
      (ts.map Located.token).map Token.usual := by
  cases h with
  | nil | bracket => rfl
  | lastText hne _ => exact dropMark_text hne hmark []
  | @text _ raw _ _ hne _ _ =>
    cases raw with
    | nil => exact absurd rfl hne
    | cons c raw => exact dropMark_text hne hmark _
  | unfinished h =>
    exact dropMark_of_not_isText (by rw [Token.isText_usual, h.isText_eq_false]) []
  | markup h _ =>
    exact dropMark_of_not_isText (by rw [Token.isText_usual, h.isText_eq_false]) _

/-- A document that begins with a byte order mark has a first text that does. -/
theorem exists_mark_of_scans {position : Nat} {cs : List Char} {ts : List Located}
    (h : Scans position cs ts) (hmark : cs.head? = some '\uFEFF') :
    ∃ more us, (ts.map Located.token).map Token.usual = .text ('\uFEFF' :: more) :: us := by
  obtain ⟨rest, rfl⟩ := List.head?_eq_some_iff.mp hmark
  generalize hcs : '\uFEFF' :: rest = document at h
  cases h with
  | nil => cases hcs
  | bracket | unfinished | markup =>
    exact absurd (List.cons.inj hcs).1 (by decide)
  | lastText =>
    subst hcs
    exact ⟨rest, [], rfl⟩
  | @text _ raw _ _ hne =>
    cases raw with
    | nil => exact absurd rfl hne
    | cons c raw =>
      obtain ⟨rfl, -⟩ := List.cons.inj hcs
      exact ⟨raw, _, rfl⟩

theorem render_dropMark_mark (more : List Char) (us : List Token) :
    render (.text ('\uFEFF' :: more) :: us) =
      '\uFEFF' :: render (dropMark (.text ('\uFEFF' :: more) :: us)) := by
  rw [render_cons, Token.render_text]
  cases more with
  | nil => rfl
  | cons c more => rfl

end Markup
end FirmwareTests
