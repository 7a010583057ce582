import FirmwareTests.Console.Summary
import FirmwareTests.Proofs.Reports.ResultSets

/-!
# The bytes of a summary

Writing one piece of text after the other is writing all of them at once, up to the first
fault. So a summary is one row of bytes: they depend on the results and on whether the
terminal has colour, and a sink with room for them has received them in the end.
-/

namespace FirmwareTests
namespace Console

open Files Reports

/-! ### Actions -/

section

variable {ε σ α β : Type} {s s' : σ}
variable {x : ExceptT ε (StateM σ) α} {f : α → ExceptT ε (StateM σ) β}

theorem run_bind_ok {a : α} (h : x.run s = (.ok a, s')) : (x >>= f).run s = (f a).run s' := by
  change (ExceptT.bindCont f (x.run s).1) (x.run s).2 = _
  rw [h]
  rfl

theorem run_bind_error {e : ε} (h : x.run s = (.error e, s')) :
    (x >>= f).run s = (.error e, s') := by
  change (ExceptT.bindCont f (x.run s).1) (x.run s).2 = _
  rw [h]
  rfl

end

/-! ### Bytes -/

/-- A write of two parts takes in the second part where the first has fitted. -/
theorem Sink.write_append (bs cs : List UInt8) (s : Sink) : s.write (bs ++ cs) =
    match s.write bs with
    | (none, s') => s'.write cs
    | (some fault, s') => (some fault, s') := by
  obtain ⟨received, room, whenFull, whenFlushed⟩ := s
  cases room with
  | none => simp [write]
  | some room =>
    by_cases hfits : bs.length ≤ room
    · have hroom : room - bs.length - cs.length = room - (bs.length + cs.length) := by omega
      have hrest : cs.length ≤ room - bs.length ↔ bs.length + cs.length ≤ room := by omega
      simp [write, hfits, hroom, hrest, List.take_append, List.take_of_length_le]
    · have hall : ¬ bs.length + cs.length ≤ room := by omega
      have hroom : room - bs.length = 0 := by omega
      have hroom' : room - (bs.length + cs.length) = 0 := by omega
      simp [write, hfits, hall, hroom, hroom', List.take_append]

theorem Sink.received_of_write {bs : List UInt8} {s s' : Sink} (h : s.write bs = (none, s')) :
    s'.received = s.received ++ bs := by
  have hreceived := received_write bs s
  have hfits := (fst_write_eq_none_iff bs s).1 (congrArg Prod.fst h)
  rwa [h, List.take_of_length_le hfits] at hreceived

namespace Terminal

def put (bs : List UInt8) : TerminalM Unit := fun t =>
  match t.sink.write bs with
  | (none, sink) => (.ok (), { t with sink := sink })
  | (some fault, sink) => (.error fault, { t with sink := sink })

theorem run_put_nil (t : Terminal) : (put []).run t = (.ok (), t) := by
  obtain ⟨⟨received, room, whenFull, whenFlushed⟩, coloured⟩ := t
  cases room <;> simp [ExceptT.run, put, Sink.write]

theorem writePlain_eq_put (text : String) : writePlain text = put (Text.bytes text.toList) := by
  funext t
  rw [writePlain, put]
  cases t.sink.write (Text.bytes text.toList) with
  | mk fault? sink => cases fault? <;> rfl

theorem run_put_snd (bs : List UInt8) (t : Terminal) :
    ((put bs).run t).2 = { t with sink := (t.sink.write bs).2 } := by
  rw [ExceptT.run, put]
  cases t.sink.write bs with
  | mk fault? sink => cases fault? <;> rfl

theorem coloured_put {bs : List UInt8} {t t' : Terminal} {answer : Except Fault Unit}
    (h : (put bs).run t = (answer, t')) : t'.coloured = t.coloured := by
  have hwritten : t' = { t with sink := (t.sink.write bs).2 } := by
    rw [← run_put_snd, h]
  rw [hwritten]

theorem run_put_of_unlimited {t : Terminal} (hroom : t.sink.room = none) (bs : List UInt8) :
    (put bs).run t =
      (.ok (), { t with sink := { t.sink with received := t.sink.received ++ bs } }) := by
  obtain ⟨⟨received, room, whenFull, whenFlushed⟩, coloured, flushes⟩ := t
  cases hroom
  rfl

theorem run_put_append (bs cs : List UInt8) (t : Terminal) :
    (put (bs ++ cs)).run t =
      match (put bs).run t with
      | (.ok (), t') => (put cs).run t'
      | (.error fault, t') => (.error fault, t') := by
  rw [ExceptT.run, ExceptT.run, put, put, Sink.write_append]
  cases t.sink.write bs with
  | mk fault? sink => cases fault? <;> rfl

theorem run_flush {α : Type} (a : α) (t : Terminal) : (flush >>= fun _ => pure a).run t =
    (match t.sink.whenFlushed with
      | none => .ok a
      | some fault => .error fault, { t with flushes := t.flushes + 1 }) := by
  cases hflush : t.sink.whenFlushed with
  | none =>
    have hrun : flush.run t = (.ok (), { t with flushes := t.flushes + 1 }) := by
      simp only [ExceptT.run, flush, hflush]
    exact run_bind_ok hrun
  | some fault =>
    have hrun : flush.run t = (.error fault, { t with flushes := t.flushes + 1 }) := by
      simp only [ExceptT.run, flush, hflush]
    exact run_bind_error hrun

end Terminal

/-! ### Summaries -/

namespace Segment

def bytes (coloured : Bool) : Segment → List UInt8
  | plain text => Text.bytes text.toList
  | status passed =>
    let shown := if coloured then styled (colour passed).parameters (word passed) else word passed
    Text.bytes shown.toList

theorem run_write (segment : Segment) (t : Terminal) :
    segment.write.run t = (Terminal.put (segment.bytes t.coloured)).run t := by
  cases segment with
  | plain text => rw [write, Terminal.writePlain_eq_put, bytes]
  | status passed =>
    rw [write, ExceptT.run, ExceptT.run, Terminal.writeColoured, bytes]
    split
    · rw [Terminal.writePlain_eq_put]
    · rw [Terminal.writePlain_eq_put]

/-- Pieces written in a row are written as one row of bytes. -/
theorem run_forM_write (segments : List Segment) (t : Terminal) :
    (segments.forM write).run t =
      (Terminal.put (segments.flatMap (bytes t.coloured))).run t := by
  induction segments generalizing t with
  | nil => exact (Terminal.run_put_nil t).symm
  | cons segment segments ih =>
    change (segment.write >>= fun _ => segments.forM write).run t = _
    rw [List.flatMap_cons, Terminal.run_put_append]
    cases hput : (Terminal.put (segment.bytes t.coloured)).run t with
    | mk answer t' =>
      have hwrite := (run_write segment t).trans hput
      cases answer with
      | ok =>
        rw [run_bind_ok hwrite, ih, Terminal.coloured_put hput]
      | error fault => rw [run_bind_error hwrite]

end Segment

def summaryBytes (coloured : Bool) (results : ResultSet) : List UInt8 :=
  (bodySegments results ++ [footer results.tally]).flatMap (Segment.bytes coloured)

theorem statuses_bodySegments (results : ResultSet) :
    Segment.statuses (bodySegments results) =
      results.toList.map fun result => result.2.isPassed := by
  simp [Segment.statuses, bodySegments, suiteSegments, caseSegments, assertionSegments,
    ResultSet.toList, List.filterMap_flatMap, List.map_flatMap, ← List.map_eq_flatMap,
    Function.comp_def]

/-- The tally of the statuses of a result set is the tally of its outcomes. -/
theorem statusTally_bodySegments (results : ResultSet) :
    statusTally (Segment.statuses (bodySegments results)) = results.tally := by
  rw [statuses_bodySegments, results.tally_eq, statusTally, List.length_map]

/-- A summary is one row of bytes. It is passed on when all of them have been written, and
only then. -/
theorem run_writeSummary (results : ResultSet) (t : Terminal) : (writeSummary results).run t =
    match (Terminal.put (summaryBytes t.coloured results)).run t with
    | (.ok (), t') =>
      (match t'.sink.whenFlushed with
        | none => .ok results.tally
        | some fault => .error fault, { t' with flushes := t'.flushes + 1 })
    | (.error fault, t') => (.error fault, t') := by
  rw [summaryBytes, List.flatMap_append, Terminal.run_put_append, ← Segment.run_forM_write]
  cases hbody : ((bodySegments results).forM Segment.write).run t with
  | mk answer t₁ =>
    cases answer with
    | error fault => exact run_bind_error hbody
    | ok =>
      have hcoloured : t₁.coloured = t.coloured :=
        Terminal.coloured_put ((Segment.run_forM_write _ t).symm.trans hbody)
      apply (run_bind_ok hbody).trans
      simp only [statusTally_bodySegments, List.flatMap_singleton, ← hcoloured]
      cases hfooter : (footer results.tally).write.run t₁ with
      | mk answer t₂ =>
        have hput := (Segment.run_write _ t₁).symm.trans hfooter
        simp only [hput]
        cases answer with
        | error fault => exact run_bind_error hfooter
        | ok => exact (run_bind_ok hfooter).trans (Terminal.run_flush results.tally t₂)

section

variable {results : ResultSet} {t t' : Terminal} {tally : Tally}

theorem writeSummary_eq_ok_iff : (writeSummary results).run t = (.ok tally, t') ↔
    tally = results.tally ∧ ∃ written, written.sink.whenFlushed = none ∧
      (Terminal.put (summaryBytes t.coloured results)).run t = (.ok (), written) ∧
        t' = { written with flushes := written.flushes + 1 } := by
  rw [run_writeSummary]
  cases hput : (Terminal.put (summaryBytes t.coloured results)).run t with
  | mk answer written =>
    constructor
    · intro h
      cases answer with
      | error fault => cases h
      | ok =>
        obtain ⟨htally, rfl⟩ := Prod.mk.inj h
        cases hflush : written.sink.whenFlushed with
        | none =>
          rw [hflush] at htally
          cases htally
          exact ⟨rfl, written, hflush, rfl, rfl⟩
        | some fault =>
          rw [hflush] at htally
          cases htally
    · rintro ⟨rfl, _, hflush, h, rfl⟩
      cases h
      simp only [hflush]

theorem writeSummary_eq_ok (h : (writeSummary results).run t = (.ok tally, t')) :
    tally = results.tally :=
  (writeSummary_eq_ok_iff.1 h).1

/-- A sink has received a summary that was written without a fault. -/
theorem received_writeSummary (h : (writeSummary results).run t = (.ok tally, t')) :
    t'.sink.received = t.sink.received ++ summaryBytes t.coloured results := by
  obtain ⟨-, written, -, hput, rfl⟩ := writeSummary_eq_ok_iff.1 h
  rw [ExceptT.run, Terminal.put] at hput
  cases hwrite : t.sink.write (summaryBytes t.coloured results) with
  | mk fault? sink =>
    rw [hwrite] at hput
    cases fault? with
    | none =>
      cases hput
      exact Sink.received_of_write hwrite
    | some fault => cases hput

/-- A terminal on a sink without bounds and faults. -/
structure Terminal.Unlimited (t : Terminal) : Prop where
  room : t.sink.room = none
  whenFlushed : t.sink.whenFlushed = none

theorem Terminal.Unlimited.exists_writeSummary (h : t.Unlimited) (results : ResultSet) :
    ∃ t', (writeSummary results).run t = (.ok results.tally, t') ∧ t'.Unlimited := by
  have hput := Terminal.run_put_of_unlimited h.room (summaryBytes t.coloured results)
  refine ⟨_, writeSummary_eq_ok_iff.2 ⟨rfl, _, ?_, hput, rfl⟩, ?_⟩
  · exact h.whenFlushed
  · exact ⟨h.room, h.whenFlushed⟩

end

end Console
end FirmwareTests
