import FirmwareTests.Proofs.Markup.Rendering

/-!
# Nesting

The names of the open elements are followed through a row of tokens. A reading is
complete exactly when its document follows the grammar and every end tag closes the
innermost open element; the elements left open are then counted by their names.
-/

namespace FirmwareTests
namespace Markup

/-- The names of the open elements after a token, innermost first, unless the token is an
end tag that closes none of them. -/
def Token.namesAfter (names : List (List Char)) : Token → Option (List (List Char))
  | start tag => some (tag.name :: names)
  | close tag =>
    match names with
    | [] => none
    | name :: outer => if name = tag.name then some outer else none
  | _ => some names

/-- The names of the elements open after a row of tokens. -/
def openNames (names : List (List Char)) (ts : List Token) : Option (List (List Char)) :=
  ts.foldlM Token.namesAfter names

@[simp] theorem openNames_cons (names : List (List Char)) (t : Token) (ts : List Token) :
    openNames names (t :: ts) = (t.namesAfter names).bind fun after => openNames after ts := rfl

@[simp] theorem openNames_append (names : List (List Char)) (ts us : List Token) :
    openNames names (ts ++ us) = (openNames names ts).bind fun after => openNames after us := by
  simp [openNames]

@[simp] theorem Token.namesAfter_usual (names : List (List Char)) (t : Token) :
    t.usual.namesAfter names = t.namesAfter names := by
  cases t with
  | close tag => cases names <;> simp [usual, namesAfter]
  | _ => rfl

@[simp] theorem openNames_map_usual (names : List (List Char)) (ts : List Token) :
    openNames names (ts.map Token.usual) = openNames names ts := by
  induction ts generalizing names with
  | nil => rfl
  | cons t ts ih => simp [ih]

/-! ### Complete readings -/

theorem nest_cons_eq {names after : List (List Char)} {t : Located}
    (h : t.token.namesAfter names = some after) (ts : List Located) (ending : Ending) :
    Reading.nest names (t :: ts) ending = (Reading.nest after ts ending).cons t := by
  obtain ⟨token, position⟩ := t
  cases token with
  | close tag =>
    cases names with
    | nil => cases h
    | cons name outer =>
      simp only [Token.namesAfter] at h
      split at h
      · next hname =>
        cases h
        simp [Reading.nest, hname]
      · cases h
  | _ =>
    cases h
    rfl

theorem ending_nest_cons_ne {names : List (List Char)} {t : Located}
    (h : t.token.namesAfter names = none) (ts : List Located) (ending : Ending) :
    (Reading.nest names (t :: ts) ending).ending ≠ .complete := by
  obtain ⟨token, position⟩ := t
  cases token with
  | close tag =>
    cases names with
    | nil => simp [Reading.nest, Reading.broken]
    | cons name outer =>
      simp only [Token.namesAfter] at h
      split at h
      · cases h
      · next hname => simp [Reading.nest, hname, Reading.broken]
  | _ => cases h

theorem nest_eq_complete_iff {names : List (List Char)} {ts us : List Located}
    {ending : Ending} : Reading.nest names ts ending = ⟨us, .complete⟩ ↔
      ending = .complete ∧ us = ts ∧ (openNames names (ts.map Located.token)).isSome := by
  induction ts generalizing names us with
  | nil =>
    constructor
    · intro h
      cases h
      exact ⟨rfl, rfl, rfl⟩
    · rintro ⟨rfl, rfl, -⟩
      rfl
  | cons t ts ih =>
    cases hafter : t.token.namesAfter names with
    | none =>
      constructor
      · intro h
        exact absurd (congrArg Reading.ending h) (ending_nest_cons_ne hafter ts ending)
      · rintro ⟨-, -, hnames⟩
        simp [hafter] at hnames
    | some after =>
      rw [nest_cons_eq hafter]
      simp only [List.map_cons, openNames_cons, hafter, Option.bind_some]
      constructor
      · intro h
        obtain ⟨us', rfl, hnest⟩ := eq_of_cons_eq_complete h
        obtain ⟨hending, rfl, hnames⟩ := ih.mp hnest
        exact ⟨hending, rfl, hnames⟩
      · rintro ⟨hending, rfl, hnames⟩
        rw [ih.mpr ⟨hending, rfl, hnames⟩, Reading.cons]

/-- A reading is complete when the document follows the grammar and is properly nested. -/
theorem read_eq_complete_iff {document : List Char} {ts : List Located} :
    read document = ⟨ts, .complete⟩ ↔ Scans 0 (dropByteOrderMark document) ts ∧
      (openNames [] (ts.map Located.token)).isSome := by
  unfold read
  rw [nest_eq_complete_iff]
  constructor
  · rintro ⟨hending, rfl, hnames⟩
    refine ⟨scan_eq_complete_iff.mp ?_, hnames⟩
    rw [← hending]
  · rintro ⟨hscans, hnames⟩
    rw [scan_eq_complete_iff.mpr hscans]
    exact ⟨rfl, rfl, hnames⟩

theorem read_eq_of_complete {document : List Char} (h : (read document).ending = .complete) :
    read document = ⟨(read document).tokens, .complete⟩ := by
  rw [← h]

/-! ### Open elements -/

theorem length_namesAfter {names after : List (List Char)} {t : Token}
    (h : t.namesAfter names = some after) : after.length = t.depthAfter names.length := by
  cases t with
  | close tag =>
    cases names with
    | nil => cases h
    | cons name outer =>
      simp only [Token.namesAfter] at h
      split at h
      · cases h
        rfl
      · cases h
  | _ =>
    cases h
    rfl

theorem length_openNames {names after : List (List Char)} {ts : List Token}
    (h : openNames names ts = some after) :
    after.length = ts.foldl Token.depthAfter names.length := by
  induction ts generalizing names with
  | nil =>
    cases h
    rfl
  | cons t ts ih =>
    obtain ⟨between, hfirst, hrest⟩ := Option.bind_eq_some_iff.mp h
    rw [ih hrest, length_namesAfter hfirst, List.foldl_cons]

theorem openElements_eq_zero_iff {names : List (List Char)} {ts : List Token}
    (h : openNames [] ts = some names) : openElements ts = 0 ↔ names = [] := by
  have hlength : names.length = openElements ts := length_openNames h
  rw [← hlength, List.length_eq_zero_iff]

/-- No name is left in a document that is read to its end with all elements closed. -/
theorem openNames_of_closed {document : List Char} (hending : (read document).ending = .complete)
    (hclosed : openElements ((read document).tokens.map Located.token) = 0) :
    openNames [] ((read document).tokens.map Located.token) = some [] := by
  obtain ⟨names, hnames⟩ :=
    Option.isSome_iff_exists.mp (read_eq_complete_iff.mp (read_eq_of_complete hending)).2
  rw [hnames, (openElements_eq_zero_iff hnames).mp hclosed]

end Markup
end FirmwareTests
