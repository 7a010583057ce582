import FirmwareTests.Files.FileSystem

/-!
# Test hosts

A test host is started in a run directory. It may change the file system and print, and
it ends with a wait status, a word of 32 bits.
-/

namespace FirmwareTests
namespace Bench

open Files

/-- How a process ended. -/
structure WaitStatus where
  raw : UInt32
  deriving DecidableEq, Repr

namespace WaitStatus

def exited (code : Nat) : WaitStatus :=
  ⟨.ofNat (code % 256 * 256)⟩

def signalled (signal : Nat) : WaitStatus :=
  ⟨.ofNat signal⟩

def isSuccess (s : WaitStatus) : Bool :=
  s.raw == 0

/-- The names of the signals from 1 on. -/
def signalNames : List String :=
  ["SIGHUP", "SIGINT", "SIGQUIT", "SIGILL", "SIGTRAP", "SIGABRT", "SIGBUS", "SIGFPE",
    "SIGKILL", "SIGUSR1", "SIGSEGV", "SIGUSR2", "SIGPIPE", "SIGALRM", "SIGTERM",
    "SIGSTKFLT", "SIGCHLD", "SIGCONT", "SIGSTOP", "SIGTSTP", "SIGTTIN", "SIGTTOU",
    "SIGURG", "SIGXCPU", "SIGXFSZ", "SIGVTALRM", "SIGPROF", "SIGWINCH", "SIGIO", "SIGPWR",
    "SIGSYS"]

/-- A signal by number, and by name if it has one. -/
def signalText (signal : Nat) : String :=
  let name := if signal = 0 then none else signalNames[signal - 1]?
  toString signal ++ (name.map fun n => " (" ++ n ++ ")").getD ""

/-- A status as messages show it. The lowest seven bits are 0 after an exit and 127 for
a process that has not ended; else they are the signal, and the bit above tells of a
core dump. -/
def message (s : WaitStatus) : String :=
  let n := s.raw.toNat
  let low := n % 128
  let second := n / 256 % 256
  if low = 0 then "exit status: " ++ toString second
  else if low ≠ 127 then
    "signal: " ++ signalText low ++ if n / 128 % 2 = 1 then " (core dumped)" else ""
  else if n % 256 = 127 then "stopped (not terminated) by signal: " ++ signalText second
  else if n = 0xFFFF then "continued (WIFCONTINUED)"
  else
    "unrecognised wait status: " ++ toString s.raw.toInt32.toInt ++ " 0x" ++
      String.ofList (Nat.toDigits 16 n)

end WaitStatus

/-- What a host did: the file system after it, what it printed, and how it ended. -/
structure HostRun where
  files : FileSystem
  printed : List UInt8
  status : WaitStatus

abbrev Launcher := (program directory : String) → FileSystem → Except Fault HostRun

end Bench
end FirmwareTests
