import FirmwareTests.Proofs.Console.Summaries

/-!
# Summaries that do not fit

A sink that fills up has received the first bytes of a summary, as many as there was room
for, wherever among the pieces of the summary that is. The fault of the sink is reported
then, and nothing is passed on. A summary that fits is passed on once, and a fault that comes
up only there is reported as well.
-/

namespace FirmwareTests
namespace Console

open Files Reports

/-! ### Rows of bytes -/

namespace Terminal

variable {t : Terminal} {bs : List UInt8} {room : Nat}

theorem run_put_of_fits (hroom : t.sink.room = some room) (hfits : bs.length ≤ room) :
    (put bs).run t = (.ok (), { t with
      sink := { t.sink with
        received := t.sink.received ++ bs, room := some (room - bs.length) } }) := by
  have hwrite : t.sink.write bs = (none, { t.sink with
      received := t.sink.received ++ bs, room := some (room - bs.length) }) := by
    simp only [Sink.write, hroom, List.take_of_length_le hfits, if_pos hfits]
  rw [ExceptT.run, put, hwrite]

/-- Of bytes that do not fit the first ones are taken in, and no room is left. -/
theorem run_put_of_exceeds (hroom : t.sink.room = some room) (hexceeds : room < bs.length) :
    (put bs).run t = (.error t.sink.whenFull, { t with
      sink := { t.sink with received := t.sink.received ++ bs.take room, room := some 0 } }) := by
  have hleft : room - bs.length = 0 := by omega
  have hwrite : t.sink.write bs = (some t.sink.whenFull, { t.sink with
      received := t.sink.received ++ bs.take room, room := some 0 }) := by
    simp only [Sink.write, hroom, hleft, if_neg (Nat.not_le.mpr hexceeds)]
  rw [ExceptT.run, put, hwrite]

/-- A terminal that has written nothing yet, on a sink without bounds and faults. -/
def unbounded (coloured : Bool) : Terminal :=
  { sink := .unlimited, coloured := coloured }

/-- The terminal that has written bytes to such a sink and has passed them on once. -/
def passedOn (coloured : Bool) (bs : List UInt8) : Terminal :=
  { sink := { Sink.unlimited with received := bs }, coloured := coloured, flushes := 1 }

/-- A terminal that has written nothing yet, on a sink with bounded room. -/
def limited (coloured : Bool) (room : Nat) (whenFull : Fault) (whenFlushed : Option Fault) :
    Terminal :=
  { sink := ⟨[], some room, whenFull, whenFlushed⟩, coloured := coloured }

end Terminal

/-! ### Summaries -/

section

variable (results : ResultSet) (coloured : Bool) (room : Nat)
variable (whenFull : Fault) (whenFlushed : Option Fault)

theorem run_writeSummary_unbounded :
    (writeSummary results).run (.unbounded coloured) =
      (.ok results.tally, .passedOn coloured (summaryBytes coloured results)) := by
  rw [run_writeSummary, Terminal.run_put_of_unlimited rfl]
  rfl

variable {results coloured room}

theorem run_writeSummary_of_fits (hfits : (summaryBytes coloured results).length ≤ room) :
    (writeSummary results).run (.limited coloured room whenFull whenFlushed) =
      (match whenFlushed with
        | none => .ok results.tally
        | some fault => .error fault,
      ⟨⟨summaryBytes coloured results, some (room - (summaryBytes coloured results).length),
        whenFull, whenFlushed⟩, coloured, 1⟩) := by
  have hput := Terminal.run_put_of_fits (t := .limited coloured room whenFull whenFlushed)
    rfl hfits
  rw [run_writeSummary]
  exact hput ▸ rfl

theorem run_writeSummary_of_exceeds (hexceeds : room < (summaryBytes coloured results).length) :
    (writeSummary results).run (.limited coloured room whenFull whenFlushed) =
      (.error whenFull,
        ⟨⟨(summaryBytes coloured results).take room, some 0, whenFull, whenFlushed⟩,
          coloured, 0⟩) := by
  have hput := Terminal.run_put_of_exceeds (t := .limited coloured room whenFull whenFlushed)
    rfl hexceeds
  rw [run_writeSummary]
  exact hput ▸ rfl

variable (results coloured room)

/-- A sink receives the first bytes of a summary, as many as there is room for. Writing ends
well exactly when all of them fit and are passed on. Else the fault of the full sink is
reported, and they are not passed on, or the fault of passing them on. -/
theorem writeSummary_limited :
    let unlimited := (writeSummary results).run (.unbounded coloured)
    let whole := unlimited.2.sink.received
    let limited := (writeSummary results).run (.limited coloured room whenFull whenFlushed)
    unlimited.1 = .ok results.tally ∧
      limited.2.sink.received = whole.take (min room whole.length) ∧
        (∀ tally, limited.1 = .ok tally ↔
          unlimited.1 = .ok tally ∧ whole.length ≤ room ∧ whenFlushed = none) ∧
            (room < whole.length → limited.1 = .error whenFull ∧ limited.2.flushes = 0) ∧
              (whole.length ≤ room → limited.2.flushes = 1 ∧
                ∀ fault, whenFlushed = some fault → limited.1 = .error fault) := by
  intro unlimited whole limited
  have hunlimited : unlimited = _ := run_writeSummary_unbounded results coloured
  have hwhole : whole = summaryBytes coloured results := by
    simp only [whole, hunlimited, Terminal.passedOn]
  have htally : unlimited.1 = .ok results.tally := by
    rw [hunlimited]
  rw [htally, hwhole]
  rcases Nat.lt_or_ge room (summaryBytes coloured results).length with hexceeds | hfits
  · have hlimited : limited = _ := run_writeSummary_of_exceeds whenFull whenFlushed hexceeds
    rw [hlimited, Nat.min_eq_left hexceeds.le]
    refine ⟨rfl, rfl, ?_, fun _ => ⟨rfl, rfl⟩, ?_⟩
    · intro tally
      constructor
      · nofun
      · rintro ⟨-, hle, -⟩
        omega
    · intro hle
      omega
  · have hlimited : limited = _ := run_writeSummary_of_fits whenFull whenFlushed hfits
    rw [hlimited, Nat.min_eq_right hfits, List.take_length]
    refine ⟨rfl, rfl, ?_, ?_, fun _ => ⟨rfl, ?_⟩⟩
    · intro tally
      cases whenFlushed with
      | none => simp [hfits, eq_comm]
      | some fault => simp
    · intro hlt
      omega
    · rintro fault rfl
      rfl

end

/-- A sink that is full after the first two bytes of a highlighted word. -/
theorem writeSummary_limited_midway :
    let results := ResultSet.insert ∅ ⟨"s", "c", "a"⟩ .passed
    let whole := ((writeSummary results).run (.unbounded true)).2.sink.received
    let limited := (writeSummary results).run (.limited true 104 .noSpace none)
    104 < whole.length ∧ limited.1 = .error .noSpace ∧ limited.2.flushes = 0 ∧
      limited.2.sink.received = whole.take 104 ∧
        limited.2.sink.received.drop 102 = Text.bytes "\x1b[".toList := by
  intro results whole limited
  have hbody : 104 < ((bodySegments results).flatMap (Segment.bytes true)).length := by
    decide +kernel
  have hwhole : whole = summaryBytes true results := by
    simp only [whole, run_writeSummary_unbounded, Terminal.passedOn]
  have hsplit : whole = (bodySegments results).flatMap (Segment.bytes true) ++
      (footer results.tally).bytes true := by
    rw [hwhole, summaryBytes, List.flatMap_append, List.flatMap_singleton]
  have hexceeds : 104 < whole.length := by
    rw [hsplit, List.length_append]
    omega
  obtain ⟨-, hreceived, -, hfull, -⟩ := writeSummary_limited results true 104 .noSpace none
  rw [Nat.min_eq_left hexceeds.le] at hreceived
  obtain ⟨hfault, hflushes⟩ := hfull hexceeds
  refine ⟨hexceeds, hfault, hflushes, hreceived, ?_⟩
  rw [hreceived]
  change (whole.take 104).drop 102 = _
  rw [hsplit, List.take_append_of_le_length hbody.le]
  decide +kernel

end Console
end FirmwareTests
