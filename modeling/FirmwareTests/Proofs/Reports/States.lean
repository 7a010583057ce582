import FirmwareTests.Proofs.Reports.Retitler

/-!
# States between tokens

What a builder has at any time fits the elements that are open then: their number, the test
case among them, the failure in it, and the counts so far. A pass that retitles counts the
same elements. So an end tag is never met where no element is open.
-/

namespace FirmwareTests
namespace Markup

/-! ### The names that a reader holds -/

variable {names : List (List Char)} {ts front back : List Located} {ending : Ending} {t : Located}

theorem tokens_nest_cons_of_none (h : t.token.namesAfter names = none) :
    (Reading.nest names (t :: ts) ending).tokens = [] := by
  obtain ⟨token, position⟩ := t
  cases token with
  | close tag =>
    cases names with
    | nil => rfl
    | cons name outer =>
      simp only [Token.namesAfter] at h
      split at h
      · cases h
      · next hne =>
        rw [Reading.nest, if_neg hne]
        rfl
  | _ => cases h

/-- A reader that comes to a token goes on behind it with the names that are open then. -/
theorem exists_nest_of_tokens_cons (h : (Reading.nest names ts ending).tokens = t :: back) :
    ∃ after rest, t.token.namesAfter names = some after ∧
      Reading.nest names ts ending = (Reading.nest after rest ending).cons t := by
  cases ts with
  | nil => cases h
  | cons u rest =>
    cases hafter : u.token.namesAfter names with
    | none =>
      rw [tokens_nest_cons_of_none hafter] at h
      cases h
    | some after =>
      have hnest := nest_cons_eq hafter rest ending
      rw [hnest] at h
      obtain ⟨rfl, -⟩ := List.cons.inj h
      exact ⟨after, rest, hafter, hnest⟩

/-- After some of its tokens a reader holds the names of the elements that these leave open. -/
theorem exists_nest_of_tokens_append (h : (Reading.nest names ts ending).tokens = front ++ back) :
    ∃ after rest, openNames names (front.map Located.token) = some after ∧
      Reading.nest names ts ending = front.foldr Reading.cons (Reading.nest after rest ending) := by
  induction front generalizing names ts with
  | nil => exact ⟨names, ts, rfl, rfl⟩
  | cons t front ih =>
    obtain ⟨between, rest, hbetween, hnest⟩ := exists_nest_of_tokens_cons h
    rw [hnest] at h
    obtain ⟨-, hrest⟩ := List.cons.inj h
    obtain ⟨after, rest', hafter, hnest'⟩ := ih hrest
    refine ⟨after, rest', ?_, ?_⟩
    · rw [List.map_cons, openNames_cons, hbetween]
      exact hafter
    · rw [hnest, hnest', List.foldr_cons]

end Markup

namespace Reports

open Markup

namespace Builder

/-! ### Builders that fit the open elements -/

/-- What a builder has, given the names of the open elements. -/
structure Fits (names : List (List Char)) (b : Builder) : Prop where
  depth : b.depth = names.length
  /-- A test case is open only inside the root, which has its report then. -/
  pending : b.pending.isSome = true → 2 ≤ b.depth ∧ b.report.isSome = true
  /-- A failure is open only inside a test case, which has a text for it then. -/
  inFailure : b.inFailure = true → 3 ≤ b.depth ∧
    ∃ pending text, b.pending = some pending ∧ pending.failure = some text
  /-- The test cases that have failed and the one that is open have been counted. -/
  counts : ∀ report, b.report = some report →
    report.failedTestCases + b.pending.toList.length ≤ report.testCases

theorem fits_initial : initial.Fits [] := by
  constructor <;> simp [initial]

variable {names after : List (List Char)} {b b' : Builder} {tag : Tag} {t : Token}

theorem counts_of_rootReport? {report : Report} (h : rootReport? tag = some report) :
    report.testCases = 0 ∧ report.failedTestCases = 0 := by
  obtain ⟨tests, -, h⟩ := Option.bind_eq_some_iff.mp h
  obtain ⟨failures, -, h⟩ := Option.bind_eq_some_iff.mp h
  obtain ⟨name, -, h⟩ := Option.bind_eq_some_iff.mp h
  cases h
  exact ⟨rfl, rfl⟩

/-- What opening an element does: it makes the report of a root, begins a test case, begins
the text of a failure, or does nothing. -/
theorem openElement_cases {isEmpty : Bool} {position : Nat}
    (h : (b.openElement tag isEmpty position).toOption = some b') :
    (b.depth = 1 ∧ ∃ report, rootReport? tag = some report ∧
      b' = { b with report := some report }) ∨
    (b.depth = 2 ∧ ∃ report name, b.report = some report ∧
      b' = { b with
        report := some { report with testCases := report.testCases + 1 }
        pending := some ⟨name, none⟩ }) ∨
    (b.depth = 3 ∧ ∃ pending, b.pending = some pending ∧
      b' = { b with
        pending := some { pending with failure := some [] }
        inFailure := !isEmpty }) ∨
    b' = b := by
  unfold openElement at h
  split at h
  case h_1 hdepth _ =>
    rw [toOption_bind, toOption_mapError, toOption_rootReport] at h
    obtain ⟨report, hreport, h⟩ := Option.bind_eq_some_iff.mp h
    cases h
    exact .inl ⟨hdepth, report, hreport, rfl⟩
  case h_2 report hdepth hreport =>
    split at h
    · rw [toOption_bind] at h
      obtain ⟨name, -, h⟩ := Option.bind_eq_some_iff.mp h
      cases h
      exact .inr (.inl ⟨hdepth, report, name, hreport, rfl⟩)
    · cases h
      exact .inr (.inr (.inr rfl))
  case h_3 pending hdepth hpending =>
    split at h
    · cases h
      exact .inr (.inr (.inl ⟨hdepth, pending, hpending, rfl⟩))
    · cases h
      exact .inr (.inr (.inr rfl))
  case h_4 =>
    cases h
    exact .inr (.inr (.inr rfl))

theorem Fits.deeper (h : b.Fits names) (name : List Char) :
    ({ b with depth := b.depth + 1 } : Builder).Fits (name :: names) := by
  constructor
  case depth => exact congrArg Nat.succ h.depth
  case pending =>
    intro hsome
    obtain ⟨hdepth, hreport⟩ := h.pending hsome
    exact ⟨Nat.le_succ_of_le hdepth, hreport⟩
  case inFailure =>
    intro hfailure
    obtain ⟨hdepth, hpending⟩ := h.inFailure hfailure
    exact ⟨Nat.le_succ_of_le hdepth, hpending⟩
  case counts => exact h.counts

theorem Fits.pending_eq_none (h : b.Fits names) (hdepth : b.depth < 2) : b.pending = none := by
  by_contra hne
  have := (h.pending (Option.isSome_iff_ne_none.mpr hne)).1
  omega

theorem Fits.inFailure_eq_false (h : b.Fits names) (hdepth : b.depth < 3) :
    b.inFailure = false := by
  by_contra hne
  have := (h.inFailure (eq_true_of_ne_false hne)).1
  omega

/-- Opening an element gives a builder that fits it and those around it. -/
theorem Fits.openElement (h : b.Fits names) (name : List Char) {isEmpty : Bool} {position : Nat}
    (hopen : (Builder.openElement { b with depth := b.depth + 1 } tag isEmpty position).toOption =
      some b') : b'.Fits (name :: names) := by
  have hdeeper := h.deeper name
  obtain ⟨hdepth, report, hreport, rfl⟩ | ⟨hdepth, report, testName, hreport, rfl⟩ |
    ⟨hdepth, pending, hpending, rfl⟩ | rfl := openElement_cases hopen
  · obtain ⟨htestCases, hfailed⟩ := counts_of_rootReport? hreport
    have houter : b.depth + 1 = 1 := hdepth
    have hnone : b.pending = none := h.pending_eq_none (by omega)
    refine { hdeeper with pending := ?_, counts := ?_ }
    · intro hsome
      rw [hnone] at hsome
      cases hsome
    · rintro _ ⟨⟩
      simp [htestCases, hfailed, hnone]
  · have hcounts := hdeeper.counts report hreport
    have houter : b.depth + 1 = 2 := hdepth
    have hfalse : b.inFailure = false := h.inFailure_eq_false (by omega)
    refine { depth := hdeeper.depth, pending := ?_, inFailure := ?_, counts := ?_ }
    · exact fun _ => ⟨hdepth.ge, rfl⟩
    · intro hfailure
      rw [hfalse] at hfailure
      cases hfailure
    · rintro _ ⟨⟩
      simp only [Option.toList_some, List.length_singleton]
      omega
  · have hcounts := hdeeper.counts
    have hsome := hdeeper.pending (Option.isSome_iff_exists.mpr ⟨pending, hpending⟩)
    refine { depth := hdeeper.depth, pending := ?_, inFailure := ?_, counts := ?_ }
    · exact fun _ => hsome
    · exact fun _ => ⟨hdepth.ge, _, [], rfl, rfl⟩
    · intro report hreport
      have hle := hcounts report hreport
      rw [hpending] at hle
      exact hle
  · exact hdeeper

theorem failedTestCases_record_le (report : Report) (pending : Pending) :
    (record report pending).failedTestCases ≤ report.failedTestCases + 1 := by
  unfold record
  dsimp only
  split <;> omega

/-- What closing an element does: it ends the text of a failure, records a test case, or does
nothing. -/
theorem closeElement_cases (b : Builder) :
    (b.depth = 3 ∧ b.closeElement = { b with inFailure := false }) ∨
    (b.depth = 2 ∧ ∃ report pending, b.report = some report ∧ b.pending = some pending ∧
      b.closeElement = { b with report := some (record report pending), pending := none }) ∨
    (b.depth ≠ 3 ∧ (b.depth = 2 → b.report.isSome = true → b.pending = none) ∧
      b.closeElement = b) := by
  unfold closeElement
  split
  case h_1 hdepth => exact .inl ⟨hdepth, rfl⟩
  case h_2 report pending hdepth hreport hpending =>
    exact .inr (.inl ⟨hdepth, report, pending, hreport, hpending, rfl⟩)
  case h_3 hthree htwo =>
    refine .inr (.inr ⟨hthree, ?_, rfl⟩)
    intro hdepth hreport
    obtain ⟨report, hreport⟩ := Option.isSome_iff_exists.mp hreport
    cases hpending : b.pending with
    | none => rfl
    | some pending => exact (htwo report pending hdepth hreport hpending).elim

theorem depth_closeElement (b : Builder) : b.closeElement.depth = b.depth := by
  obtain ⟨-, h⟩ | ⟨-, report, pending, -, -, h⟩ | ⟨-, -, h⟩ := closeElement_cases b <;> rw [h]

theorem Fits.closeElement {name : List Char} (h : b.Fits (name :: names)) :
    ({ b.closeElement with depth := b.depth - 1 } : Builder).Fits names := by
  have hdepth : b.depth - 1 = names.length := by
    rw [h.depth]
    rfl
  obtain ⟨hthree, hclose⟩ | ⟨htwo, report, pending, hreport, hpending, hclose⟩ |
    ⟨hthree, htwo, hclose⟩ := closeElement_cases b
  · rw [hclose]
    refine { depth := hdepth, pending := ?_, inFailure := ?_, counts := h.counts }
    · exact fun hsome => ⟨by dsimp only; omega, (h.pending hsome).2⟩
    · intro hfailure
      cases hfailure
  · rw [hclose]
    have hcounts := h.counts report hreport
    have hrecord := failedTestCases_record_le report pending
    have hfalse : b.inFailure = false := h.inFailure_eq_false (by omega)
    refine { depth := hdepth, pending := ?_, inFailure := ?_, counts := ?_ }
    · intro hsome
      cases hsome
    · intro hfailure
      rw [hfalse] at hfailure
      cases hfailure
    · rintro _ ⟨⟩
      rw [hpending] at hcounts
      exact hrecord.trans hcounts
  · rw [hclose]
    refine { depth := hdepth, pending := ?_, inFailure := ?_, counts := h.counts }
    · intro hsome
      obtain ⟨hle, hreport⟩ := h.pending hsome
      have hne : b.depth ≠ 2 := by
        intro hdepth
        rw [htwo hdepth hreport] at hsome
        cases hsome
      exact ⟨by dsimp only; omega, hreport⟩
    · intro hfailure
      obtain ⟨hle, hpending⟩ := h.inFailure hfailure
      exact ⟨by dsimp only; omega, hpending⟩

/-- A text that goes on gives a builder that fits the same elements. -/
theorem Fits.appendFailure (h : b.Fits names) {pending : Pending} {text : List Char}
    (hopen : b.openFailure? = some (pending, text)) (more : List Char) :
    (b.appendFailure pending more).Fits names := by
  unfold openFailure? at hopen
  split at hopen
  · next hin =>
    obtain ⟨pending', hpending, hfailure⟩ := Option.bind_eq_some_iff.mp hopen
    obtain ⟨text', -, heq⟩ := Option.map_eq_some_iff.mp hfailure
    cases heq
    have hsome := h.pending (Option.isSome_iff_exists.mpr ⟨pending, hpending⟩)
    have hcounts := h.counts
    rw [hpending] at hcounts
    exact {
      depth := h.depth
      pending := fun _ => hsome
      inFailure := fun _ => ⟨hin.2.ge, _, more, rfl, rfl⟩
      counts := hcounts }
  · cases hopen

/-- What one token keeps: the builder fits the elements that are open behind it. -/
theorem Fits.next? (h : b.Fits names) (hnames : t.namesAfter names = some after)
    (hnext : b.next? t = some b') : b'.Fits after := by
  unfold Builder.next? step at hnext
  cases t with
  | start tag =>
    cases hnames
    exact h.openElement tag.name hnext
  | empty tag =>
    cases hnames
    dsimp only at hnext
    rw [toOption_bind] at hnext
    obtain ⟨opened, hopen, hnext⟩ := Option.bind_eq_some_iff.mp hnext
    cases hnext
    have hclosed := (h.openElement tag.name hopen).closeElement
    rw [depth_openElement hopen] at hclosed
    exact hclosed
  | close tag =>
    cases hnext
    cases names with
    | nil => cases hnames
    | cons name outer =>
      simp only [Token.namesAfter] at hnames
      split at hnames
      · cases hnames
        exact h.closeElement
      · cases hnames
  | text raw =>
    cases hnames
    dsimp only at hnext
    split at hnext
    · cases hnext
      exact h
    · next hopen =>
      split at hnext
      · cases hnext
      · cases hnext
        exact h.appendFailure hopen _
  | cdata raw =>
    cases hnames
    dsimp only at hnext
    split at hnext
    · cases hnext
      exact h
    · next hopen =>
      cases hnext
      exact h.appendFailure hopen _
  | comment | instruction | doctype =>
    cases hnames
    cases hnext
    exact h

theorem Fits.foldlM_next? {ts : List Token} (h : b.Fits names)
    (hnames : openNames names ts = some after) (hfold : ts.foldlM Builder.next? b = some b') :
    b'.Fits after := by
  induction ts generalizing b names with
  | nil =>
    cases hnames
    cases hfold
    exact h
  | cons t ts ih =>
    rw [List.foldlM_cons] at hfold
    obtain ⟨between, hnext, hrest⟩ := Option.bind_eq_some_iff.mp hfold
    obtain ⟨names', hfirst, hnames'⟩ := Option.bind_eq_some_iff.mp hnames
    exact ih (h.next? hfirst hnext) hnames' hrest

/-- A builder that takes in a token counts down only from a number above zero. -/
structure CountsDown (b : Builder) (t : Located) : Prop where
  /-- An end tag takes one from the depth. -/
  close : ∀ tag, t.token = .close tag → 0 < b.closeElement.depth
  /-- An empty tag takes back the one that it has added. -/
  empty : ∀ tag opened, t.token = .empty tag →
    Builder.openElement { b with depth := b.depth + 1 } tag true t.position = .ok opened →
      opened.closeElement.depth = b.depth + 1

theorem Fits.countsDown (h : b.Fits names) {t : Located}
    (hnames : t.token.namesAfter names = some after) : b.CountsDown t := by
  constructor
  case close =>
    intro tag htag
    rw [htag] at hnames
    rw [depth_closeElement, h.depth]
    cases names with
    | nil => cases hnames
    | cons name outer => exact Nat.succ_pos outer.length
  case empty =>
    intro tag opened _ hopen
    rw [depth_closeElement]
    exact depth_openElement (toOption_eq_some_iff.mpr hopen)

end Builder

namespace Retitler

variable {title : List Char} {r r' : Retitler}

theorem depth_step {t : Located} (h : r.step title t = .ok r') :
    r'.depth = t.token.depthAfter r.depth := by
  unfold step at h
  split at h
  · next tag _ _ =>
    rcases hnew : retitledTag title tag t.position with error | new <;> rw [hnew] at h <;> cases h
    exact Token.depthAfter_withTag new r.depth t.token
  · cases h
    rfl

theorem depth_foldlM_step {ts : List Located} (h : ts.foldlM (step title) r = .ok r') :
    r'.depth = (ts.map Located.token).foldl Token.depthAfter r.depth := by
  induction ts generalizing r with
  | nil =>
    cases h
    rfl
  | cons t ts ih =>
    rw [List.foldlM_cons] at h
    rcases hstep : r.step title t with error | between
    · rw [hstep] at h
      cases h
    · rw [hstep] at h
      rw [ih h, depth_step hstep, List.map_cons, List.foldl_cons]

end Retitler

/-- After any of the tokens of a document a builder fits the elements whose names the reader
holds, and a pass that retitles has counted as many. Neither counts below zero when the next
token comes. -/
theorem passes_fit_openNames (title document : List Char) :
    retitle title document =
      ((read document).tokens.foldlM (Retitler.step title) .initial >>= fun r =>
        r.finish (read document).ending) ∧
    ∀ front back, (read document).tokens = front ++ back → ∃ names,
      openNames [] (front.map Located.token) = some names ∧
      (∃ rest ending, read document =
        front.foldr Reading.cons (Reading.nest names rest ending)) ∧
      (∀ b, front.foldlM Builder.step .initial = .ok b →
        b.Fits names ∧ ∀ t ∈ back.head?, b.CountsDown t) ∧
      ∀ r, front.foldlM (Retitler.step title) .initial = .ok r →
        r.depth = names.length ∧ ∀ t ∈ back.head?, ∀ tag, t.token = .close tag → 0 < r.depth := by
  refine ⟨retitleReading_eq_foldlM title (read document), ?_⟩
  intro front back htokens
  obtain ⟨names, rest, hnames, hnest⟩ := exists_nest_of_tokens_append htokens
  -- the next token, too, is one that the reader accepts
  have hnext : ∀ t ∈ back.head?, ∃ after, t.token.namesAfter names = some after := by
    intro t ht
    obtain ⟨back, rfl⟩ := List.head?_eq_some_iff.mp ht
    rw [List.append_cons] at htokens
    obtain ⟨after, -, hafter, -⟩ := exists_nest_of_tokens_append htokens
    rw [List.map_append, openNames_append, hnames] at hafter
    obtain ⟨_, ⟨⟩, hlast⟩ := Option.bind_eq_some_iff.mp hafter
    obtain ⟨after', hafter', -⟩ := Option.bind_eq_some_iff.mp hlast
    exact ⟨after', hafter'⟩
  refine ⟨names, hnames, ⟨rest, _, hnest⟩, ?_, ?_⟩
  · intro b hb
    rw [← toOption_eq_some_iff, Builder.toOption_foldlM_step] at hb
    have hfits := Builder.fits_initial.foldlM_next? hnames hb
    refine ⟨hfits, ?_⟩
    intro t ht
    obtain ⟨after, hafter⟩ := hnext t ht
    exact hfits.countsDown hafter
  · intro r hr
    have hdepth : r.depth = names.length := by
      rw [Retitler.depth_foldlM_step hr, length_openNames hnames]
      rfl
    refine ⟨hdepth, ?_⟩
    intro t ht tag htag
    obtain ⟨after, hafter⟩ := hnext t ht
    rw [htag] at hafter
    rw [hdepth]
    cases names with
    | nil => cases hafter
    | cons name outer => exact Nat.succ_pos outer.length

/-- Inside a failure, with an end tag and then the end of the document to come. -/
theorem passes_fit_openNames_inFailure : ∃ front back b r names,
    (read "<testsuite><testcase name='s.c.a'><failure>m</failure>".toList).tokens =
        front ++ back ∧
      back.map Located.token = [.close ⟨"failure".toList⟩] ∧
      openNames [] (front.map Located.token) = some names ∧ names.length = 3 ∧
      front.foldlM Builder.step .initial = .ok b ∧ b.inFailure = true ∧ b.Fits names ∧
      (∀ t ∈ back.head?, b.CountsDown t) ∧
      front.foldlM (Retitler.step []) .initial = .ok r ∧ r.depth = names.length := by
  let tokens := (read "<testsuite><testcase name='s.c.a'><failure>m</failure>".toList).tokens
  have hback : (tokens.drop 4).map Located.token = [.close ⟨"failure".toList⟩] := by
    decide +kernel
  have hbuilder : ((tokens.take 4).foldlM Builder.step .initial).toOption =
      some ⟨3, some ⟨none, none, none, 1, 0, ∅⟩, some ⟨⟨"s", "c", "a"⟩, some ['m']⟩, true⟩ := by
    decide +kernel
  have hretitler : ((tokens.take 4).foldlM (Retitler.step []) .initial).toOption.isSome = true := by
    decide +kernel
  rw [toOption_eq_some_iff] at hbuilder
  obtain ⟨r, hretitler⟩ := Option.isSome_iff_exists.mp hretitler
  rw [toOption_eq_some_iff] at hretitler
  have htokens : tokens = tokens.take 4 ++ tokens.drop 4 := (List.take_append_drop 4 tokens).symm
  obtain ⟨names, hnames, -, hfits, hdepth⟩ :=
    (passes_fit_openNames [] _).2 (tokens.take 4) (tokens.drop 4) htokens
  obtain ⟨hfits, hdown⟩ := hfits _ hbuilder
  exact ⟨_, _, _, r, names, htokens, hback, hnames, hfits.depth.symm, hbuilder, rfl, hfits, hdown,
    hretitler, (hdepth r hretitler).1⟩

end Reports
end FirmwareTests
