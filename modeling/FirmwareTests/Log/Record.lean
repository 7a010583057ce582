import FirmwareTests.Console.Terminal

/-!
# Log records

A record has a level, a source and a text. The target of a source is its name in log
filters. A record is printed as a line that begins with its level, which may be
highlighted. Records without a heading are their text alone, and continue the record
before them.
-/

namespace FirmwareTests
namespace Log

/-- The levels of records, the gravest first. -/
inductive Level where
  | error
  | warning
  | info
  | debug
  | trace
  deriving DecidableEq, Repr

/-- The number of a level: a record is kept where records up to its number are. -/
def Level.number : Level → Nat
  | error => 1
  | warning => 2
  | info => 3
  | debug => 4
  | trace => 5

/-- The parts of the program that log. -/
inductive Source where
  | dispatch
  | pipeline
  | testHost
  | output
  | errors
  | noHeading
  deriving DecidableEq, Repr

def Source.target : Source → String
  | dispatch => "unittest_runner::dispatch"
  | pipeline => "unittest_runner::pipeline"
  | testHost => "unittest_runner::test_host"
  | output => "unittest_runner::output"
  | errors => "unittest_runner::errors"
  | noHeading => "unittest_runner::no_heading"

/-- A record of the log. -/
structure Record where
  level : Level
  source : Source
  text : String
  deriving DecidableEq, Repr

def Level.word : Level → String
  | error => "error"
  | warning => "warning"
  | info => "info"
  | debug => "debug"
  | trace => "trace"

def Level.parameters : Level → String
  | error => "31;1"
  | warning => "33;1"
  | info => "1"
  | debug => "1"
  | trace => "2"

def Record.render (coloured : Bool) (r : Record) : String :=
  let word := if coloured then Console.styled r.level.parameters r.level.word else r.level.word
  let heading := if r.source = .noHeading then "" else word ++ ": "
  heading ++ r.text ++ "\n"

end Log
end FirmwareTests
