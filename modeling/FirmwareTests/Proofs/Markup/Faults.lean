import FirmwareTests.Proofs.Markup.Nesting

/-!
# Faults that reading meets

Reading a document splits it into tokens and holds its end tags against its start tags. It
does not look into tags and texts, so whatever ends it is no fault of an attribute or of an
entity.
-/

namespace FirmwareTests
namespace Markup

/-- Whether a fault is one of an attribute or of an entity. Every other one is met by
reading the document. -/
def Error.isInner : Error → Bool
  | badAttribute _ => true
  | badEntity _ => true
  | _ => false

theorem isInner_of_token {kind : BangKind} {text : List Char} {error : Error}
    (h : kind.token text = .error error) : error.isInner = false := by
  unfold BangKind.token at h
  split at h
  · cases h
  · cases h
  · split at h <;> cases h
    rfl
  · cases h
    rfl

theorem isInner_of_readBang {position : Nat} {cs : List Char} {fault : Malformed}
    (h : readBang position cs = .error fault) : fault.error.isInner = false := by
  unfold readBang at h
  split at h
  · cases h
    rfl
  · split at h
    · cases h
      rfl
    · split at h
      · cases h
        rfl
      · dsimp only at h
        split at h
        · cases h
        · next htoken =>
          cases h
          exact isInner_of_token htoken

theorem isInner_of_readMarkup {position : Nat} {cs : List Char} {fault : Malformed}
    (h : readMarkup position cs = .error fault) : fault.error.isInner = false := by
  unfold readMarkup at h
  split at h
  · exact isInner_of_readBang h
  · cases h
  · unfold readInstruction at h
    dsimp only at h
    split at h <;> cases h
    rfl
  · unfold readTag at h
    split at h <;> cases h
    rfl

theorem ending_withText (raw : List Char) (position : Nat) (r : Reading) :
    (r.withText raw position).ending = r.ending := by
  unfold Reading.withText
  split <;> rfl

theorem isInner_of_scan {position : Nat} {cs : List Char} {fault : Malformed}
    (h : (scan position cs).ending = .broken fault) : fault.error.isInner = false := by
  fun_induction scan position cs with
  | case1 | case2 =>
    rw [ending_withText] at h
    cases h
  | case3 position cs text here head first more hdrop malformed hread =>
    rw [ending_withText] at h
    cases h
    exact isInner_of_readMarkup hread
  | case4 position cs text here head first more hdrop lexeme hread hlength ih =>
    rw [ending_withText] at h
    exact ih h

theorem ending_nest {names : List (List Char)} {ts : List Located} {ending : Ending}
    {fault : Malformed} (h : (Reading.nest names ts ending).ending = .broken fault) :
    ending = .broken fault ∨ fault.error.isInner = false := by
  fun_induction Reading.nest names ts ending with
  | case1 => exact .inl h
  | case2 _ _ _ _ _ ih | case4 _ _ _ _ _ ih | case6 _ _ _ _ _ _ _ ih => exact ih h
  | case3 | case5 =>
    cases h
    exact .inr rfl

/-- Reading a document never ends at a fault of an attribute or an entity. -/
theorem isInner_of_read {document : List Char} {fault : Malformed}
    (h : (read document).ending = .broken fault) : fault.error.isInner = false := by
  rcases ending_nest h with hscan | hinner
  · exact isInner_of_scan hscan
  · exact hinner

end Markup
end FirmwareTests
