import FirmwareTests.Proofs.Markup.Grammar

/-!
# Documents in their usual spelling

A token that has been read is written in its usual spelling and read again as the same
token, but for the white space at the end of an end tag. A row of legible tokens without
two texts side by side is scanned from its rendering, and a scanned row is such a row.
-/

namespace FirmwareTests
namespace Markup

open Text

def Token.usual : Token → Token
  | close tag => .close ⟨tag.name⟩
  | token => token

/-! ### End tags -/

theorem dropWhile_dropWhile (p : Char → Bool) (cs : List Char) :
    (cs.dropWhile p).dropWhile p = cs.dropWhile p := by
  induction cs with
  | nil => rfl
  | cons c cs ih =>
    by_cases hc : p c = true
    · simpa [hc] using ih
    · simp [hc]

theorem dropEndWhile_dropEndWhile (p : Char → Bool) (cs : List Char) :
    dropEndWhile p (dropEndWhile p cs) = dropEndWhile p cs := by
  simp [dropEndWhile, dropWhile_dropWhile]

theorem mem_of_mem_dropEndWhile {p : Char → Bool} {c : Char} {cs : List Char}
    (h : c ∈ dropEndWhile p cs) : c ∈ cs := by
  rw [dropEndWhile, List.mem_reverse] at h
  exact List.mem_reverse.mp ((List.dropWhile_suffix p).subset h)

@[simp] theorem EndTag.name_name (t : EndTag) : (⟨t.name⟩ : EndTag).name = t.name := by
  by_cases h : t.text.all isSpace = true
  · simp [EndTag.name, h]
  · simp only [EndTag.name, h, Bool.false_eq_true, ↓reduceIte, dropEndWhile_dropEndWhile,
      ite_self]

theorem EndTag.name_eq {tag : EndTag} (h : ∀ c ∈ tag.text, isSpace c = false) :
    tag.name = tag.text := by
  unfold EndTag.name
  split
  · rfl
  · rw [dropEndWhile, List.dropWhile_eq_self_iff.mpr, List.reverse_reverse]
    intro hpos
    rw [Bool.not_eq_true]
    exact h _ (List.mem_reverse.mp (List.getElem_mem hpos))

theorem EndTag.mem_text_of_mem_name {t : EndTag} {c : Char} (h : c ∈ t.name) : c ∈ t.text := by
  unfold EndTag.name at h
  split at h
  · exact h
  · exact mem_of_mem_dropEndWhile h

/-! ### Renderings -/

namespace Token

theorem render_text (raw : List Char) : (text raw).render = raw := rfl

theorem render_start (tag : Tag) : (start tag).render = '<' :: (tag.text ++ ['>']) := by
  have h : (start tag).render = "<".toList ++ tag.text ++ ">".toList := rfl
  simpa using h

theorem render_empty (tag : Tag) : (empty tag).render = '<' :: (tag.text ++ ['/', '>']) := by
  have h : (empty tag).render = "<".toList ++ tag.text ++ "/>".toList := rfl
  simpa using h

theorem render_close (tag : EndTag) :
    (close tag).render = '<' :: '/' :: (tag.name ++ ['>']) := by
  have h : (close tag).render = "</".toList ++ tag.name ++ ">".toList := rfl
  simpa using h

theorem render_cdata (raw : List Char) : (cdata raw).render =
    '<' :: '!' :: '[' :: (['C', 'D', 'A', 'T', 'A', '['] ++ (raw ++ [']', ']', '>'])) := by
  have h : (cdata raw).render = "<![CDATA[".toList ++ raw ++ "]]>".toList := rfl
  simpa using h

theorem render_comment (raw : List Char) :
    (comment raw).render = '<' :: '!' :: '-' :: '-' :: (raw ++ ['-', '-', '>']) := by
  have h : (comment raw).render = "<!--".toList ++ raw ++ "-->".toList := rfl
  simpa using h

theorem render_instruction (raw : List Char) :
    (instruction raw).render = '<' :: '?' :: (raw ++ ['?', '>']) := by
  have h : (instruction raw).render = "<?".toList ++ raw ++ "?>".toList := rfl
  simpa using h

theorem render_doctype (raw : List Char) : (doctype raw).render =
    '<' :: '!' :: 'D' :: (['O', 'C', 'T', 'Y', 'P', 'E', ' '] ++ (raw ++ ['>'])) := by
  have h : (doctype raw).render = "<!DOCTYPE ".toList ++ raw ++ ">".toList := rfl
  simpa using h

@[simp] theorem render_usual (t : Token) : t.usual.render = t.render := by
  cases t with
  | close tag => simp only [usual, render_close, EndTag.name_name]
  | _ => rfl

end Token

@[simp] theorem render_map_usual (ts : List Token) : render (ts.map Token.usual) = render ts := by
  induction ts with
  | nil => rfl
  | cons t ts ih => simp [ih]

/-! ### Constructs that open with an exclamation mark -/

theorem toUpper_eq_or (c : Char) : c.toUpper = c ∨ ('A' ≤ c.toUpper ∧ c.toUpper ≤ 'Z') := by
  unfold Char.toUpper
  split
  · next h =>
    right
    simp only [Char.le_def, UInt32.le_iff_toNat_le] at h ⊢
    have ha : 'a'.val.toNat = 97 := rfl
    have hz : 'z'.val.toNat = 122 := rfl
    have hA : 'A'.val.toNat = 65 := rfl
    have hZ : 'Z'.val.toNat = 90 := rfl
    have hshift : ('A'.val - 'a'.val).toNat = 4294967264 := rfl
    rw [UInt32.toNat_add, hshift, hA, hZ]
    rw [ha, hz] at h
    omega
  · exact .inl rfl

theorem eq_of_map_toUpper {cs ds : List Char} (h : cs.map Char.toUpper = ds)
    (hds : ∀ d ∈ ds, ¬ ('A' ≤ d ∧ d ≤ 'Z')) : cs = ds := by
  rw [← h] at hds ⊢
  have hself : ∀ c ∈ cs, c.toUpper = c := by
    intro c hc
    exact (toUpper_eq_or c).resolve_right (hds _ (List.mem_map_of_mem hc))
  exact by rw [List.map_congr_left hself, List.map_id']

theorem notMem_of_map_toUpper {cs ds : List Char} {c : Char} (h : cs.map Char.toUpper = ds)
    (hc : c.toUpper ∉ ds) : c ∉ cs := by
  intro hmem
  exact hc (h ▸ List.mem_map_of_mem hmem)

namespace BangKind

def opening : BangKind → List Char
  | comment => ['!', '-', '-']
  | cdata => ['!', '[', 'C', 'D', 'A', 'T', 'A', '[']
  | doctype => ['!', 'D', 'O', 'C', 'T', 'Y', 'P', 'E']

theorem content?_eq (kind : BangKind) (text : List Char) :
    kind.content? text =
      if (text.take kind.opening.length).map Char.toUpper = kind.opening then
        some (text.drop kind.opening.length)
      else none := by
  cases kind <;> rfl

theorem eq_append_of_content? {kind : BangKind} {text content : List Char}
    (h : kind.content? text = some content) :
    ∃ start, start.map Char.toUpper = kind.opening ∧ text = start ++ content := by
  rw [content?_eq] at h
  split at h
  · next hstart =>
    cases h
    exact ⟨_, hstart, (List.take_append_drop _ _).symm⟩
  · cases h

theorem content?_opening (kind : BangKind) (content : List Char) :
    kind.content? (kind.opening ++ content) = some content := by
  have hupper : kind.opening.map Char.toUpper = kind.opening := by
    cases kind <;> rfl
  rw [content?_eq, List.take_left, if_pos hupper, List.drop_left]

theorem isWhole_append (kind : BangKind) {start : List Char} (hstart : '>' ∉ start)
    (before cs : List Char) :
    kind.isWhole before (start ++ cs) = kind.isWhole (start.reverse ++ before) cs := by
  induction start generalizing before with
  | nil => rfl
  | cons c start ih =>
    have hc : (c == '>') = false := by
      rw [beq_eq_false_iff_ne]
      rintro rfl
      exact hstart List.mem_cons_self
    have ih := ih (fun hmem => hstart (List.mem_cons_of_mem _ hmem)) (c :: before)
    simp [isWhole, hc, ih]

/-- What comes before the last bracket of an opening does not matter to the end of a
CDATA section. -/
theorem ends_cdata_append (cs before before' : List Char) :
    cdata.ends (cs ++ '[' :: before) = cdata.ends (cs ++ '[' :: before') := by
  match cs with
  | [] => rfl
  | [_] => rfl
  | _ :: _ :: _ => simp [ends, List.isPrefixOf]

theorem isWhole_cdata_congr (before before' front cs : List Char) :
    cdata.isWhole (front ++ '[' :: before) cs = cdata.isWhole (front ++ '[' :: before') cs := by
  induction cs generalizing front with
  | nil => exact ends_cdata_append front before before'
  | cons c cs ih =>
    have ih := ih (c :: front)
    simp only [List.cons_append] at ih
    simp only [isWhole, ends_cdata_append front before before', ih]

theorem isWhole_doctype_congr {before before' : List Char}
    (hopen : before.count '<' = before'.count '<') (hclose : before.count '>' = before'.count '>')
    (cs : List Char) : doctype.isWhole before cs = doctype.isWhole before' cs := by
  induction cs generalizing before before' with
  | nil => simp [isWhole, ends, hopen, hclose]
  | cons c cs ih =>
    have hopens : (c :: before).count '<' = (c :: before').count '<' := by
      simp [List.count_cons, hopen]
    have hcloses : (c :: before).count '>' = (c :: before').count '>' := by
      simp [List.count_cons, hclose]
    simp [isWhole, ends, hopen, hclose, ih hopens hcloses]

/-- A comment or a CDATA section that ends has its two closing characters behind its
content, apart from those of the opening. -/
theorem eq_append_of_ends_comment {content : List Char}
    (h : comment.ends (content.reverse ++ ['-', '-', '!']) = true) :
    ∃ raw, content = raw ++ ['-', '-'] := by
  match hcontent : content.reverse with
  | [] => simp [hcontent, ends] at h
  | [_] => simp [hcontent, ends] at h
  | c :: d :: before =>
    rw [hcontent] at h
    obtain ⟨rfl, rfl⟩ : '-' = c ∧ '-' = d := by simpa [ends, List.isPrefixOf] using h
    exact ⟨before.reverse, by simpa using congrArg List.reverse hcontent⟩

theorem eq_append_of_ends_cdata {content before : List Char}
    (h : cdata.ends (content.reverse ++ '[' :: before) = true) :
    ∃ raw, content = raw ++ [']', ']'] := by
  match hcontent : content.reverse with
  | [] => simp [hcontent, ends, List.isPrefixOf] at h
  | [_] => simp [hcontent, ends, List.isPrefixOf] at h
  | c :: d :: front =>
    rw [hcontent] at h
    obtain ⟨rfl, rfl⟩ : ']' = c ∧ ']' = d := by simpa [ends, List.isPrefixOf] using h
    exact ⟨front.reverse, by simpa using congrArg List.reverse hcontent⟩

theorem token_comment_eq_ok_iff {text : List Char} {token : Token} :
    comment.token text = .ok token ↔
      ∃ content, comment.content? text = some content ∧
        token = .comment content.dropLast.dropLast := by
  cases h : comment.content? text with
  | none => simp [BangKind.token, h]
  | some content => simp [BangKind.token, h, eq_comm]

theorem token_cdata_eq_ok_iff {text : List Char} {token : Token} :
    cdata.token text = .ok token ↔
      ∃ content, cdata.content? text = some content ∧
        token = .cdata content.dropLast.dropLast := by
  cases h : cdata.content? text with
  | none => simp [BangKind.token, h]
  | some content => simp [BangKind.token, h, eq_comm]

theorem token_doctype_eq_ok_iff {text : List Char} {token : Token} :
    doctype.token text = .ok token ↔
      ∃ content, doctype.content? text = some content ∧ content.all isSpace = false ∧
        token = .doctype (content.dropWhile isSpace) := by
  cases h : doctype.content? text with
  | none => simp [BangKind.token, h]
  | some content =>
    by_cases hall : content.all isSpace = true
    · have htoken : doctype.token text = .error .emptyDoctype := by
        simp only [BangKind.token, h, if_pos hall]
      rw [htoken]
      constructor
      · intro herror
        cases herror
      · rintro ⟨_, hcontent, hnot, -⟩
        cases hcontent
        rw [hall] at hnot
        cases hnot
    · have htoken : doctype.token text = .ok (.doctype (content.dropWhile isSpace)) := by
        simp only [BangKind.token, h, if_neg hall]
      rw [htoken]
      constructor
      · intro hok
        cases hok
        exact ⟨content, rfl, Bool.eq_false_iff.mpr hall, rfl⟩
      · rintro ⟨_, hcontent, -, rfl⟩
        cases hcontent
        rfl

end BangKind

/-! ### Legible tokens -/

/-- A token that is read as itself from its usual spelling. -/
def Token.Legible : Token → Prop
  | .text raw => raw ≠ [] ∧ '<' ∉ raw
  | token => ∃ written, token.render = '<' :: written ∧ Spells token written

theorem legible_close {text : List Char} (h : '>' ∉ text) : (Token.close ⟨text⟩).usual.Legible :=
  ⟨_, Token.render_close _,
    by
      rw [EndTag.name_name]
      exact .close fun hmem => h (EndTag.mem_text_of_mem_name hmem)⟩

theorem legible_instruction {raw : List Char} (h : '>' ∉ raw) (hne : raw ≠ []) :
    (Token.instruction raw).Legible :=
  ⟨_, Token.render_instruction raw, .instruction h hne⟩

theorem legible_tagToken {text : List Char} (h : IsWholeTag text)
    (hhead : ∀ c ∈ text.head?, c ≠ '!' ∧ c ≠ '/' ∧ c ≠ '?') : (tagToken text).Legible := by
  have hspells := Spells.tag h hhead
  by_cases hlast : text.getLast? = some '/'
  · obtain ⟨front, rfl⟩ := List.getLast?_eq_some_iff.mp hlast
    rw [tagToken, if_pos hlast] at hspells ⊢
    exact ⟨_, by rw [Token.render_empty]; simp, hspells⟩
  · rw [tagToken, if_neg hlast] at hspells ⊢
    exact ⟨_, Token.render_start _, hspells⟩

theorem exists_eq_comment {text : List Char} {token : Token}
    (hwhole : BangKind.comment.isWhole ['!'] text = true)
    (htoken : BangKind.comment.token ('!' :: text) = .ok token) :
    ∃ raw, token = .comment raw ∧ text = ['-', '-'] ++ (raw ++ ['-', '-']) := by
  obtain ⟨content, hcontent, rfl⟩ := BangKind.token_comment_eq_ok_iff.mp htoken
  obtain ⟨start, hstart, heq⟩ := BangKind.eq_append_of_content? hcontent
  obtain rfl : start = ['!', '-', '-'] := eq_of_map_toUpper hstart (by simp)
  obtain rfl : text = ['-', '-'] ++ content := (List.cons.inj heq).2
  have hends := (BangKind.isWhole_iff.mp hwhole).1
  rw [List.reverse_append, List.append_assoc] at hends
  obtain ⟨raw, rfl⟩ := BangKind.eq_append_of_ends_comment hends
  exact ⟨raw, by simp, rfl⟩

theorem legible_comment {text : List Char} {token : Token}
    (hwhole : BangKind.comment.isWhole ['!'] text = true)
    (htoken : BangKind.comment.token ('!' :: text) = .ok token) : token.Legible := by
  obtain ⟨raw, rfl, rfl⟩ := exists_eq_comment hwhole htoken
  exact ⟨_, Token.render_comment raw, by simpa using Spells.bang rfl hwhole htoken⟩

/-- The case of the letters does not matter to where a section ends. -/
theorem isWhole_cdata_opening {letters content : List Char}
    (hletters : letters.map Char.toUpper = ['[', 'C', 'D', 'A', 'T', 'A'])
    (h : BangKind.cdata.isWhole ['!'] (letters ++ '[' :: content) = true) :
    BangKind.cdata.isWhole ['!'] (['[', 'C', 'D', 'A', 'T', 'A', '['] ++ content) = true := by
  have hnot : '>' ∉ letters ++ ['['] := by
    rw [List.mem_append, not_or]
    exact ⟨notMem_of_map_toUpper hletters (by decide), by decide⟩
  have hmove := BangKind.isWhole_append .cdata hnot ['!'] content
  rw [List.append_assoc, List.singleton_append, h] at hmove
  have hopening : BangKind.cdata.isWhole ['[', 'A', 'T', 'A', 'D', 'C', '[', '!'] content = true := by
    rw [hmove, List.reverse_append, List.reverse_singleton, List.append_assoc,
      List.singleton_append]
    exact BangKind.isWhole_cdata_congr _ _ [] content
  exact hopening

theorem exists_eq_cdata {text : List Char} {token : Token}
    (hwhole : BangKind.cdata.isWhole ['!'] text = true)
    (htoken : BangKind.cdata.token ('!' :: text) = .ok token) :
    ∃ letters raw, letters.map Char.toUpper = ['[', 'C', 'D', 'A', 'T', 'A'] ∧
      token = .cdata raw ∧ text = letters ++ '[' :: (raw ++ [']', ']']) := by
  obtain ⟨content, hcontent, rfl⟩ := BangKind.token_cdata_eq_ok_iff.mp htoken
  obtain ⟨start, hstart, heq⟩ := BangKind.eq_append_of_content? hcontent
  obtain ⟨bang, start, rfl, -, hstart⟩ := List.map_eq_cons_iff.mp hstart
  have hsplit : start.map Char.toUpper = ['[', 'C', 'D', 'A', 'T', 'A'] ++ ['['] := hstart
  obtain ⟨letters, last, rfl, hletters, hlast⟩ := List.map_eq_append_iff.mp hsplit
  obtain rfl : last = ['['] := eq_of_map_toUpper hlast (by simp)
  obtain rfl : text = letters ++ '[' :: content := by simpa using (List.cons.inj heq).2
  have hends := (BangKind.isWhole_iff.mp hwhole).1
  rw [List.reverse_append, List.reverse_cons, List.append_assoc, List.append_assoc,
    List.singleton_append] at hends
  obtain ⟨raw, rfl⟩ := BangKind.eq_append_of_ends_cdata hends
  exact ⟨letters, raw, hletters, by simp, rfl⟩

theorem legible_cdata {text : List Char} {token : Token}
    (hwhole : BangKind.cdata.isWhole ['!'] text = true)
    (htoken : BangKind.cdata.token ('!' :: text) = .ok token) : token.Legible := by
  obtain ⟨letters, raw, hletters, rfl, rfl⟩ := exists_eq_cdata hwhole htoken
  have hopening := isWhole_cdata_opening hletters hwhole
  have htoken' : BangKind.cdata.token
      ('!' :: (['[', 'C', 'D', 'A', 'T', 'A', '['] ++ (raw ++ [']', ']']))) = .ok (.cdata raw) := by
    rw [BangKind.token_cdata_eq_ok_iff]
    exact ⟨_, BangKind.content?_opening .cdata (raw ++ [']', ']']), by simp⟩
  exact ⟨_, Token.render_cdata raw, by simpa using Spells.bang rfl hopening htoken'⟩

/-- Neither the case of the letters nor the white space behind them matters to where a
document type ends. -/
theorem isWhole_doctype_opening {letters spaces raw : List Char}
    (hletters : letters.map Char.toUpper = ['D', 'O', 'C', 'T', 'Y', 'P', 'E'])
    (hspaces : ∀ c ∈ spaces, isSpace c = true)
    (h : BangKind.doctype.isWhole ['!'] (letters ++ (spaces ++ raw)) = true) :
    BangKind.doctype.isWhole ['!'] (['D', 'O', 'C', 'T', 'Y', 'P', 'E', ' '] ++ raw) = true := by
  have hnot : ∀ c, c.toUpper ∉ ['D', 'O', 'C', 'T', 'Y', 'P', 'E'] → isSpace c = false →
      c ∉ letters ++ spaces := by
    intro c hc hspace
    rw [List.mem_append, not_or]
    refine ⟨notMem_of_map_toUpper hletters hc, ?_⟩
    intro hmem
    rw [hspaces c hmem] at hspace
    cases hspace
  have hopen := hnot '<' (by decide) (by decide)
  have hclose := hnot '>' (by decide) (by decide)
  have hmove := BangKind.isWhole_append .doctype hclose ['!'] raw
  rw [List.append_assoc, h] at hmove
  have hopening : BangKind.doctype.isWhole
      [' ', 'E', 'P', 'Y', 'T', 'C', 'O', 'D', '!'] raw = true := by
    rw [hmove]
    refine BangKind.isWhole_doctype_congr ?_ ?_ raw
    · rw [List.count_append, List.count_reverse, List.count_eq_zero.mpr hopen]
      rfl
    · rw [List.count_append, List.count_reverse, List.count_eq_zero.mpr hclose]
      rfl
  exact hopening

/-- A document type that has been read, behind its letters and the white space after
them. -/
theorem exists_eq_doctype {text : List Char} {token : Token}
    (htoken : BangKind.doctype.token ('!' :: text) = .ok token) :
    ∃ letters spaces first more,
      letters.map Char.toUpper = ['D', 'O', 'C', 'T', 'Y', 'P', 'E'] ∧
        (∀ c ∈ spaces, isSpace c = true) ∧ isSpace first = false ∧
          token = .doctype (first :: more) ∧ text = letters ++ (spaces ++ first :: more) := by
  obtain ⟨content, hcontent, hall, rfl⟩ := BangKind.token_doctype_eq_ok_iff.mp htoken
  obtain ⟨start, hstart, heq⟩ := BangKind.eq_append_of_content? hcontent
  obtain ⟨bang, letters, rfl, -, hletters⟩ := List.map_eq_cons_iff.mp hstart
  obtain rfl : text = letters ++ content := (List.cons.inj heq).2
  have hspaces : ∀ c ∈ content.takeWhile isSpace, isSpace c = true :=
    fun c hc => List.all_eq_true.mp List.all_takeWhile c hc
  have hsplit := List.takeWhile_append_dropWhile (p := isSpace) (l := content)
  cases hraw : content.dropWhile isSpace with
  | nil =>
    rw [hraw, List.append_nil] at hsplit
    rw [← hsplit, List.all_eq_true.mpr hspaces] at hall
    cases hall
  | cons first more =>
    have hfirst := List.head?_dropWhile_not isSpace content
    rw [hraw] at hfirst hsplit
    exact ⟨letters, _, first, more, hletters, hspaces, by simpa using hfirst, rfl,
      congrArg (letters ++ ·) hsplit.symm⟩

theorem legible_doctype {text : List Char} {token : Token}
    (hwhole : BangKind.doctype.isWhole ['!'] text = true)
    (htoken : BangKind.doctype.token ('!' :: text) = .ok token) : token.Legible := by
  obtain ⟨letters, spaces, first, more, hletters, hspaces, hfirst, rfl, rfl⟩ :=
    exists_eq_doctype htoken
  have hopening := isWhole_doctype_opening hletters hspaces hwhole
  have hblank : (' ' :: first :: more).all isSpace = false := by
    simp [hfirst]
  have htrim : (' ' :: first :: more).dropWhile isSpace = first :: more := by
    rw [List.dropWhile_cons_of_pos (by decide), List.dropWhile_cons_of_neg (by simp [hfirst])]
  have htoken' : BangKind.doctype.token
      ('!' :: (['D', 'O', 'C', 'T', 'Y', 'P', 'E', ' '] ++ first :: more)) =
        .ok (.doctype (first :: more)) := by
    rw [BangKind.token_doctype_eq_ok_iff]
    exact ⟨_, BangKind.content?_opening .doctype (' ' :: first :: more), hblank, by rw [htrim]⟩
  exact ⟨_, Token.render_doctype (first :: more), by simpa using Spells.bang rfl hopening htoken'⟩

theorem legible_of_spells {token : Token} {written : List Char} (h : Spells token written) :
    token.usual.Legible := by
  cases h with
  | close hnot => exact legible_close hnot
  | instruction hnot hne => exact legible_instruction hnot hne
  | @tag text hwhole hhead =>
    have husual : (tagToken text).usual = tagToken text := by
      unfold tagToken
      split <;> rfl
    rw [husual]
    exact legible_tagToken hwhole hhead
  | @bang kind c text token hkind hwhole htoken =>
    cases kind with
    | comment =>
      have hlegible := legible_comment hwhole htoken
      obtain ⟨content, -, rfl⟩ := BangKind.token_comment_eq_ok_iff.mp htoken
      exact hlegible
    | cdata =>
      have hlegible := legible_cdata hwhole htoken
      obtain ⟨content, -, rfl⟩ := BangKind.token_cdata_eq_ok_iff.mp htoken
      exact hlegible
    | doctype =>
      have hlegible := legible_doctype hwhole htoken
      obtain ⟨content, -, -, rfl⟩ := BangKind.token_doctype_eq_ok_iff.mp htoken
      exact hlegible

theorem legible_of_unfinished {token : Token} {written : List Char}
    (h : Unfinished token written) : token.usual.Legible := by
  cases h with
  | close hnot => exact legible_close hnot
  | instruction hnot hne => exact legible_instruction hnot hne

end Markup
end FirmwareTests
