import FirmwareTests.Proofs.Markup.AttributeRow
import FirmwareTests.Proofs.Markup.Forest
import FirmwareTests.Proofs.Markup.Rereading

/-!
# Elements as they are written

An element is written as its tag with its attributes in their usual spelling, its content
and its end tag, or as an empty tag. A row of tokens that is put together from such
elements is read from its rendering, and as the forest that it was put together for.
-/

namespace FirmwareTests
namespace Markup

/-! ### Names of elements -/

/-- A character that ends no name, no tag and no markup. -/
def isNameChar (c : Char) : Bool :=
  !isSpace c && !isQuote c && c ∉ ['>', '/', '!', '?']

/-- A name that an element can be written with. -/
structure IsElementName (name : List Char) : Prop where
  ne_nil : name ≠ []
  isNameChar : ∀ c ∈ name, isNameChar c = true

section

variable {name : List Char} {attributes : List Attribute}

theorem IsElementName.isSpace (h : IsElementName name) : ∀ c ∈ name, isSpace c = false := by
  intro c hc
  have hchar := h.isNameChar c hc
  simp only [Markup.isNameChar, Bool.and_eq_true, Bool.not_eq_true'] at hchar
  exact hchar.1.1

theorem IsElementName.isQuote (h : IsElementName name) : ∀ c ∈ name, isQuote c = false := by
  intro c hc
  have hchar := h.isNameChar c hc
  simp only [Markup.isNameChar, Bool.and_eq_true, Bool.not_eq_true'] at hchar
  exact hchar.1.2

theorem IsElementName.notMem (h : IsElementName name) :
    ∀ c ∈ name, c ∉ ['>', '/', '!', '?'] := by
  intro c hc
  have hchar := h.isNameChar c hc
  rw [Markup.isNameChar, Bool.and_eq_true, decide_eq_true_eq] at hchar
  exact hchar.2

/-- A tag in its usual spelling is read as itself, whether it is empty or not. -/
theorem legible_ofAttributes {t : Token} {tag : Tag} (htag : t.tag? = some tag)
    (hname : IsElementName name) (hattributes : ∀ a ∈ attributes, a.Legible) :
    (t.withTag (.ofAttributes name attributes)).Legible := by
  have hwhole : IsWholeTag (name ++ attributes.flatMap Attribute.render) := by
    refine (isWholeTag_unquoted hname.isQuote ?_).append (isWholeTag_render hattributes)
    exact fun hmem => hname.notMem '>' hmem (by simp)
  obtain ⟨first, more, rfl⟩ := List.exists_cons_of_ne_nil hname.ne_nil
  have hfirst := hname.notMem first List.mem_cons_self
  refine legible_withTag htag hwhole rfl ?_ ?_
  · simp only [List.mem_cons, List.not_mem_nil, or_false, not_or] at hfirst ⊢
    exact ⟨hfirst.2.2.1, hfirst.2.1, hfirst.2.2.2⟩
  · intro hlast
    cases attributes with
    | nil =>
      have hmem := List.mem_of_getLast? hlast
      simp only [Tag.ofAttributes, List.flatMap_nil, List.append_nil] at hmem
      exact hname.notMem '/' hmem (by simp)
    | cons a attributes =>
      have hquote := getLast?_render (List.cons_ne_nil a attributes)
      rw [Tag.ofAttributes, List.getLast?_append, hquote] at hlast
      cases hlast

theorem legible_endTag (hname : IsElementName name) : (Token.close ⟨name⟩).Legible := by
  have hlegible := legible_close fun hmem => hname.notMem '>' hmem (by simp)
  have hend : (⟨name⟩ : EndTag).name = name := EndTag.name_eq hname.isSpace
  rwa [Token.usual, hend] at hlegible

end

/-- A CDATA section is read as itself when its end does not stand inside it. -/
theorem legible_cdata_of_whole {raw : List Char} (h : ¬ [']', ']', '>'] <:+: raw) :
    (Token.cdata raw).Legible := by
  have hwhole : BangKind.cdata.isWhole ['!']
      (['[', 'C', 'D', 'A', 'T', 'A', '['] ++ (raw ++ [']', ']'])) = true := by
    rw [BangKind.isWhole_append _ (by decide), BangKind.isWhole_iff]
    constructor
    · simp [BangKind.ends, List.isPrefixOf]
    · intro front back hsplit
      rw [← Bool.not_eq_true]
      intro hends
      -- The bracket is in the content, and the two characters before it are too.
      obtain ⟨more, rfl⟩ : ∃ more, raw = front ++ '>' :: more := by
        rcases List.append_eq_append_iff.mp hsplit with ⟨tail, -, htail⟩ | ⟨tail, rfl, htail⟩
        · have hmem : '>' ∈ [']', ']'] := by
            rw [htail]
            simp
          simp at hmem
        · cases tail with
          | nil => exact absurd (List.cons.inj htail).1 (by decide)
          | cons c more =>
            obtain ⟨rfl, -⟩ := List.cons.inj htail
            exact ⟨more, rfl⟩
      obtain ⟨before, rfl⟩ := BangKind.eq_append_of_ends_cdata hends
      exact h ⟨before, more, by simp⟩
  have htoken : BangKind.cdata.token
      ('!' :: (['[', 'C', 'D', 'A', 'T', 'A', '['] ++ (raw ++ [']', ']']))) =
        .ok (.cdata raw) := by
    rw [BangKind.token_cdata_eq_ok_iff]
    exact ⟨_, BangKind.content?_opening .cdata (raw ++ [']', ']']), by simp⟩
  exact legible_cdata hwhole htoken

/-! ### Rows and forests -/

def Forest.ofLeaves (ts : List Token) : Forest :=
  ts.foldr .leaf .nil

@[simp] theorem Forest.leaves_ofLeaves (ts : List Token) : (Forest.ofLeaves ts).leaves = ts := by
  induction ts with
  | nil => rfl
  | cons t ts ih => exact congrArg (t :: ·) ih

/-- A row of tokens that is read from its rendering, and as a forest whose elements are
all closed by their own end tags. -/
structure Grows (ts : List Token) (f : Forest) : Prop where
  nests : Nests ts f
  spelled : Spelled ts
  names : ∀ names, openNames names ts = some names

theorem grows_nil : Grows [] .nil :=
  ⟨.nil, trivial, fun _ => rfl⟩

theorem grows_ofLeaves {ts : List Token} (hleaf : ∀ t ∈ ts, t.isLeaf = true)
    (h : Spelled ts) : Grows ts (.ofLeaves ts) := by
  induction ts with
  | nil => exact grows_nil
  | cons t ts ih =>
    rw [List.forall_mem_cons] at hleaf
    obtain ⟨ht, hts⟩ := hleaf
    have hrest := ih hts h.tail
    refine ⟨.leaf ht hrest.nests, h, ?_⟩
    intro names
    have hnames : t.namesAfter names = some names := by
      cases t with
      | start | empty | close => cases ht
      | _ => rfl
    rw [openNames_cons, hnames, Option.bind_some, hrest.names]

section

variable {name : List Char} {attributes : List Attribute}
variable {inner ts : List Token} {content rest : Forest}

theorem Grows.empty (hname : IsElementName name) (hattributes : ∀ a ∈ attributes, a.Legible)
    (h : Grows ts rest) :
    Grows (.empty (.ofAttributes name attributes) :: ts)
      (.element (.ofAttributes name attributes) .nil rest) where
  nests := .empty h.nests
  spelled := by
    have hlegible : (Token.empty (.ofAttributes name attributes)).Legible :=
      legible_ofAttributes (t := .empty ⟨[]⟩) rfl hname hattributes
    exact ⟨hlegible, nofun, h.spelled⟩
  names names := by
    rw [openNames_cons]
    exact h.names names

theorem Grows.element (hname : IsElementName name) (hattributes : ∀ a ∈ attributes, a.Legible)
    (hinner : Grows inner content) (h : Grows ts rest) :
    Grows (.start (.ofAttributes name attributes) :: (inner ++ .close ⟨name⟩ :: ts))
      (.element (.ofAttributes name attributes) content rest) where
  nests := .element hinner.nests h.nests
  spelled := by
    have hlegible : (Token.start (.ofAttributes name attributes)).Legible :=
      legible_ofAttributes (t := .start ⟨[]⟩) rfl hname hattributes
    exact ⟨hlegible, nofun,
      hinner.spelled.append_cons (legible_endTag hname) rfl h.spelled⟩
  names names := by
    have hend : (⟨name⟩ : EndTag).name = name := EndTag.name_eq hname.isSpace
    rw [openNames_cons, Token.namesAfter, Option.bind_some, openNames_append, hinner.names,
      Option.bind_some, openNames_cons, Token.namesAfter, Tag.name_ofAttributes hname.isSpace,
      hend, if_pos rfl, Option.bind_some, h.names]

end

/-- A document that begins with markup is read to its end as the forest of its row. -/
theorem Grows.read_render {t : Token} {ts : List Token} {f : Forest} (h : Grows (t :: ts) f)
    (htext : t.isText = false) : (read (render (t :: ts))).ending = .complete ∧
      openElements ((read (render (t :: ts))).tokens.map Located.token) = 0 ∧
        Forest.ofTokens ((read (render (t :: ts))).tokens.map Located.token) = f := by
  have hnames := h.names []
  obtain ⟨located, hread, hlocated⟩ := exists_read_render h.spelled (by rw [hnames]; rfl)
  rw [dropMark_of_not_isText htext] at hlocated
  rw [hread, hlocated]
  exact ⟨rfl, (openElements_eq_zero_iff hnames).mpr rfl, Forest.ofTokens_of_nests h.nests⟩

/-! ### Writing elements -/

/-- An element as it is written. A short one without content is an empty tag. -/
def writtenElement (short : Bool) (name : List Char) (attributes : List Attribute)
    (content : List Char) : List Char :=
  let tag := Tag.ofAttributes name attributes
  if short = true ∧ content = [] then (Token.empty tag).render
  else (Token.start tag).render ++ content ++ (Token.close ⟨name⟩).render

def elementTokens (short : Bool) (name : List Char) (attributes : List Attribute)
    (inner : List Token) : List Token :=
  let tag := Tag.ofAttributes name attributes
  if short = true ∧ inner = [] then [.empty tag]
  else .start tag :: (inner ++ [.close ⟨name⟩])

section

variable {short : Bool} {name : List Char} {attributes : List Attribute}
variable {inner ts : List Token} {content rest : Forest}

theorem render_elementTokens (h : Spelled inner) :
    render (elementTokens short name attributes inner) =
      writtenElement short name attributes (render inner) := by
  unfold elementTokens writtenElement
  simp only [h.render_eq_nil_iff]
  split <;> simp

theorem Grows.elementTokens (hname : IsElementName name)
    (hattributes : ∀ a ∈ attributes, a.Legible) (hinner : Grows inner content)
    (h : Grows ts rest) :
    Grows (Markup.elementTokens short name attributes inner ++ ts)
      (.element (.ofAttributes name attributes) content rest) := by
  unfold Markup.elementTokens
  split
  · next hshort =>
    obtain ⟨-, rfl⟩ := hshort
    obtain rfl : content = .nil := by
      cases hinner.nests
      rfl
    exact Grows.empty hname hattributes h
  · have hgrows := Grows.element hname hattributes hinner h
    simpa using hgrows

end

end Markup
end FirmwareTests
