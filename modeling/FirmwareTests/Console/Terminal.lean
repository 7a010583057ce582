import FirmwareTests.Files.Fault
import FirmwareTests.Text.Utf8

/-!
# Terminals

A sink keeps the bytes it has received and may have room for so many more only. Of a
write that does not fit it takes the part that does and reports its fault.

A terminal writes text to a sink, and counts how often it has passed on what was
written, which may have a fault too. Where it has colour, a highlighted word stands
between the escape sequence of its colour and the one that resets it.
-/

namespace FirmwareTests
namespace Console

open Files

/-! ### Sinks -/

/-- A place for bytes. -/
structure Sink where
  received : List UInt8
  room : Option Nat
  whenFull : Fault
  whenFlushed : Option Fault
  deriving DecidableEq, Repr

namespace Sink

/-- An empty sink without bounds and faults. -/
def unlimited : Sink :=
  ⟨[], none, .noSpace, none⟩

/-- Takes in as much of a write as there is room for. -/
def write (bs : List UInt8) (s : Sink) : Option Fault × Sink :=
  match s.room with
  | none => (none, { s with received := s.received ++ bs })
  | some room =>
    let s' := { s with received := s.received ++ bs.take room, room := some (room - bs.length) }
    (if bs.length ≤ room then none else some s.whenFull, s')

theorem received_write (bs : List UInt8) (s : Sink) :
    (s.write bs).2.received = s.received ++ bs.take (s.room.getD bs.length) := by
  unfold write
  cases s.room <;> simp

theorem fst_write_eq_none_iff (bs : List UInt8) (s : Sink) :
    (s.write bs).1 = none ↔ bs.length ≤ s.room.getD bs.length := by
  unfold write
  cases s.room <;> simp

end Sink

/-! ### Terminals -/

/-- The colours of highlighted words. -/
inductive Colour where
  | green
  | red
  deriving DecidableEq, Repr

def escapeSequence (parameters : String) : String :=
  "\x1b[" ++ parameters ++ "m"

def styled (parameters text : String) : String :=
  escapeSequence parameters ++ text ++ escapeSequence "0"

def Colour.parameters : Colour → String
  | green => "92"
  | red => "91"

structure Terminal where
  sink : Sink
  coloured : Bool
  /-- How often it was asked to pass on what was written. -/
  flushes : Nat := 0
  deriving DecidableEq, Repr

/-- Actions on a terminal. They end at the first fault, and the terminal keeps what was
done to it. -/
abbrev TerminalM := ExceptT Fault (StateM Terminal)

namespace Terminal

def ofSink (sink : Sink) : Terminal :=
  { sink := sink, coloured := false }

def writePlain (text : String) : TerminalM Unit := fun t =>
  let (fault?, sink) := t.sink.write (Text.bytes text.toList)
  (match fault? with | none => .ok () | some fault => .error fault, { t with sink := sink })

def writeColoured (text : String) (colour : Colour) : TerminalM Unit := fun t =>
  if t.coloured then writePlain (styled colour.parameters text) t else writePlain text t

def flush : TerminalM Unit := fun t =>
  (match t.sink.whenFlushed with | none => .ok () | some fault => .error fault,
    { t with flushes := t.flushes + 1 })

def colourise : TerminalM Unit := fun t =>
  (.ok (), { t with coloured := true })

end Terminal

end Console
end FirmwareTests
