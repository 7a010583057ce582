import FirmwareTests.Proofs.Reports.Verdicts

/-!
# Retitling token by token

Retitling can be done in one pass over the tokens of a document, which writes each of them as
it comes and counts the open elements. The pass gives what retitling the whole reading gives.
-/

namespace FirmwareTests
namespace Reports

open Markup

/-- What a pass that retitles has done so far: whether the root has come, the number of open
elements, and the tokens that have been written. -/
structure Retitler where
  seenRoot : Bool
  depth : Nat
  written : List Token
  deriving DecidableEq

namespace Retitler

def initial : Retitler :=
  ⟨false, 0, []⟩

def write (r : Retitler) (t : Token) : Retitler :=
  { r with depth := t.depthAfter r.depth, written := r.written ++ [t] }

/-- Takes in a token. The first tag is that of the root. -/
def step (title : List Char) (r : Retitler) (t : Located) : Except RetitleError Retitler :=
  match r.seenRoot, t.token.tag? with
  | false, some tag => do
    let new ← retitledTag title tag t.position
    return { r.write (t.token.withTag new) with seenRoot := true }
  | _, _ => .ok (r.write t.token)

def finish (r : Retitler) : Ending → Except RetitleError (List Char)
  | .broken fault => .error (.malformed fault)
  | .complete =>
    if r.depth = 0 then
      if r.seenRoot then .ok (render r.written) else .error .noRoot
    else .error (.unclosed r.depth)

def writeAll (r : Retitler) (ts : List Token) : Retitler :=
  { r with depth := ts.foldl Token.depthAfter r.depth, written := r.written ++ ts }

theorem write_writeAll (r : Retitler) (t : Token) (ts : List Token) :
    (r.write t).writeAll ts = r.writeAll (t :: ts) := by
  simp [write, writeAll]

variable {title : List Char}

theorem step_of_seenRoot {r : Retitler} (h : r.seenRoot = true) (t : Located) :
    r.step title t = .ok (r.write t.token) := by
  unfold step
  rw [h]

theorem step_of_tagless (r : Retitler) {t : Located} (h : t.token.tag? = none) :
    r.step title t = .ok (r.write t.token) := by
  unfold step
  rw [h]
  cases r.seenRoot <;> rfl

theorem step_root {r : Retitler} (h : r.seenRoot = false) {t : Located} {tag : Tag}
    (htag : t.token.tag? = some tag) : r.step title t =
      (fun new => { r.write (t.token.withTag new) with seenRoot := true }) <$>
        retitledTag title tag t.position := by
  unfold step
  rw [h, htag]
  rfl

theorem foldlM_step_of_seenRoot {r : Retitler} (h : r.seenRoot = true) (ts : List Located) :
    ts.foldlM (step title) r = .ok (r.writeAll (ts.map Located.token)) := by
  induction ts generalizing r with
  | nil => simp [writeAll, pure, Except.pure]
  | cons t ts ih =>
    have hseen : (r.write t.token).seenRoot = true := h
    rw [List.foldlM_cons, step_of_seenRoot h, List.map_cons, ← write_writeAll]
    exact ih hseen

/-- A pass that has not met the root yet writes the retitled tokens, and all tokens as they
are when no root is among them. -/
theorem foldlM_step_of_not_seenRoot {r : Retitler} (h : r.seenRoot = false)
    (ts : List Located) : ts.foldlM (step title) r =
      (fun tokens? => match tokens? with
        | some tokens => { r.writeAll tokens with seenRoot := true }
        | none => r.writeAll (ts.map Located.token)) <$> retitledTokens title ts := by
  induction ts generalizing r with
  | nil => simp [writeAll, retitledTokens, pure, Except.pure, Functor.map, Except.map]
  | cons t ts ih =>
    rw [List.foldlM_cons]
    cases htag : t.token.tag? with
    | none =>
      have hseen : (r.write t.token).seenRoot = false := h
      rw [step_of_tagless r htag, retitledTokens_of_tagless title htag]
      refine (ih hseen).trans ?_
      cases retitledTokens title ts with
      | error error => rfl
      | ok tokens? => cases tokens? <;> simp [Functor.map, Except.map, write_writeAll]
    | some tag =>
      rw [step_root h htag, retitledTokens_of_tag title htag]
      cases retitledTag title tag t.position with
      | error error => rfl
      | ok new =>
        refine (foldlM_step_of_seenRoot rfl ts).trans ?_
        simp [Functor.map, Except.map, writeAll, write]

end Retitler

theorem openElements_of_tagless {ts : List Token} (h : ∀ t ∈ ts, t.tag? = none) :
    openElements ts = 0 := by
  induction ts with
  | nil => rfl
  | cons t ts ih =>
    have hrest := ih fun u hu => h u (List.mem_cons_of_mem t hu)
    have htag := h t List.mem_cons_self
    cases t with
    | start tag => cases htag
    | _ => exact hrest

theorem tagless_of_retitledTokens {title : List Char} {ts : List Located}
    (h : retitledTokens title ts = .ok none) : ∀ t ∈ ts.map Located.token, t.tag? = none := by
  rw [← List.findSome?_eq_none_iff]
  by_contra hne
  obtain ⟨tag, htag⟩ := Option.ne_none_iff_exists'.mp hne
  rcases retitledTokens_of_findSome? title htag with ⟨error, herror, -⟩ | ⟨tokens, htokens⟩
  · cases h.symm.trans herror
  · cases h.symm.trans htokens

theorem retitleReading_eq_foldlM (title : List Char) (reading : Reading) :
    retitleReading title reading =
      reading.tokens.foldlM (Retitler.step title) .initial >>= fun r =>
        r.finish reading.ending := by
  obtain ⟨ts, ending⟩ := reading
  rw [Retitler.foldlM_step_of_not_seenRoot rfl, retitleReading]
  dsimp only
  cases htokens : retitledTokens title ts with
  | error error => rfl
  | ok tokens? =>
    cases ending with
    | broken fault => rfl
    | complete =>
      cases tokens? with
      | some tokens => rfl
      | none =>
        have hclosed : openElements (ts.map Located.token) = 0 :=
          openElements_of_tagless (tagless_of_retitledTokens htokens)
        exact (if_pos hclosed).symm

end Reports
end FirmwareTests
