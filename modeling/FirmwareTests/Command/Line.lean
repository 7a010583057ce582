import FirmwareTests.Text.Utf8

/-!
# The command line

`[OPTIONS]` runs the bench, and so does `run [OPTIONS]`; `show [OPTIONS] REPORT...`
summarises reports that are there. An option stands at most once, and none stands
before a command. Long options take their value after an equals sign or as the next
argument; short ones may be written together, and take the rest of their argument as
their value. After `--` everything is a word.
-/

namespace FirmwareTests
namespace Command

abbrev Argument := List UInt8

/-- When output is coloured. -/
inductive ColourChoice where
  | auto
  | always
  | never
  deriving DecidableEq, Repr

inductive OptionName where
  | verbose
  | version
  | colour
  | workspace
  | buildDirectory
  | buildTarget
  | toolChain
  | host
  deriving DecidableEq, Repr

namespace OptionName

def all : List OptionName :=
  [verbose, version, colour, workspace, buildDirectory, buildTarget, toolChain, host]

def long : OptionName → String
  | verbose => "verbose"
  | version => "version"
  | colour => "color"
  | workspace => "workspace-dir"
  | buildDirectory => "build-dir-name"
  | buildTarget => "build-target"
  | toolChain => "tool-chain-tag"
  | host => "test-host"

def short? : OptionName → Option Char
  | verbose => some 'v'
  | version => some 'V'
  | workspace => some 'C'
  | _ => none

def takesValue : OptionName → Bool
  | verbose => false
  | version => false
  | _ => true

end OptionName

/-- Where an option stands: before any command, or after one. -/
inductive Level where
  | top
  | run
  | summary
  deriving DecidableEq, Repr

namespace Level

def options : Level → List OptionName
  | top => OptionName.all
  | run => OptionName.all.filter (· ≠ .version)
  | summary => [.verbose, .colour]

def long? (level : Level) (name : Argument) : Option OptionName :=
  level.options.find? fun o => Text.bytes o.long.toList == name

def short? (level : Level) (letter : UInt8) : Option OptionName :=
  level.options.find? fun o => o.short?.map Char.toNat == some letter.toNat

end Level

/-- The options that have been given. -/
structure Settings where
  verbose : Bool
  colour : Option ColourChoice
  workspace : Option Argument
  buildDirectory : Option String
  buildTarget : Option String
  toolChain : Option String
  host : Option String
  deriving DecidableEq, Repr

/-- Why arguments are not gone through to their end. -/
inductive Stop where
  | usage
  | version
  deriving DecidableEq, Repr

def textOf (a : Argument) : Except Stop String :=
  match Text.ofBytes? a with
  | some cs => .ok (String.ofList cs)
  | none => .error .usage

def colourOf (a : Argument) : Except Stop ColourChoice := do
  match ← textOf a with
  | "auto" => return .auto
  | "always" => return .always
  | "never" => return .never
  | _ => throw .usage

namespace Settings

def none : Settings :=
  ⟨false, .none, .none, .none, .none, .none, .none⟩

def once {α : Type} (old : Option α) (new : α) : Except Stop (Option α) :=
  if old.isSome then .error .usage else .ok (some new)

def setFlag (s : Settings) (o : OptionName) : Except Stop Settings :=
  match o with
  | .verbose => if s.verbose then .error .usage else .ok { s with verbose := true }
  | .version => .error .version
  | _ => .error .usage

/-- Gives an option its value. A workspace has a name, and other values are texts. -/
def setValue (s : Settings) (o : OptionName) (value : Argument) : Except Stop Settings := do
  match o with
  | .colour => return { s with colour := ← once s.colour (← colourOf value) }
  | .workspace =>
    if value = [] then throw .usage
    return { s with workspace := ← once s.workspace value }
  | .buildDirectory => return { s with buildDirectory := ← once s.buildDirectory (← textOf value) }
  | .buildTarget => return { s with buildTarget := ← once s.buildTarget (← textOf value) }
  | .toolChain => return { s with toolChain := ← once s.toolChain (← textOf value) }
  | .host => return { s with host := ← once s.host (← textOf value) }
  | _ => throw .usage

end Settings

def byte (c : Char) : UInt8 :=
  .ofNat c.toNat

/-- Splits a long option into its name and the value after its equals sign. -/
def splitLong (a : Argument) : Argument × Option Argument :=
  let name := a.takeWhile (· != byte '=')
  match a.dropWhile (· != byte '=') with
  | [] => (name, none)
  | _ :: value => (name, some value)

/-- What has been read of a level: its options, its words, and the option that waits for
its value. -/
structure Progress where
  settings : Settings
  words : List Argument
  waiting : Option OptionName
  deriving DecidableEq, Repr

namespace Progress

def readLong (p : Progress) (level : Level) (a : Argument) : Except Stop Progress := do
  let (name, value?) := splitLong a
  match level.long? name, value? with
  | none, _ => throw .usage
  | some o, some value =>
    if o.takesValue then return { p with settings := ← p.settings.setValue o value }
    else throw .usage
  | some o, none =>
    if o.takesValue then return { p with waiting := some o }
    else return { p with settings := ← p.settings.setFlag o }

def readShort (p : Progress) (level : Level) : List UInt8 → Except Stop Progress
  | [] => .ok p
  | letter :: more => do
    match level.short? letter with
    | none => throw .usage
    | some o =>
      if o.takesValue then
        match more with
        | [] => return { p with waiting := some o }
        | first :: rest =>
          let value := if first = byte '=' then rest else more
          return { p with settings := ← p.settings.setValue o value }
      else
        let settings ← p.settings.setFlag o
        readShort { p with settings := settings } level more

end Progress

/-- How the arguments of a level end: with all of them read, or at a command. -/
inductive Arguments where
  | complete (settings : Settings) (words : List Argument)
  | command (level : Level) (rest : List Argument)
  deriving DecidableEq, Repr

def command? (a : Argument) : Option Level :=
  if a = Text.bytes "run".toList then some .run
  else if a = Text.bytes "show".toList then some .summary
  else none

/-- The forms of an argument. -/
inductive Form where
  | separator
  | long (text : Argument)
  | short (letters : List UInt8)
  | word
  deriving DecidableEq, Repr

/-- The form of an argument. A dash alone is a word. -/
def formOf (a : Argument) : Form :=
  match a with
  | [] => .word
  | [_] => .word
  | first :: second :: rest =>
    if first = byte '-' then
      if second = byte '-' then if rest = [] then .separator else .long rest
      else .short (second :: rest)
    else .word

/-- Reads the arguments of a level. A command is seen only where nothing else has been. -/
def readArguments (level : Level) (fresh : Bool) (p : Progress) :
    List Argument → Except Stop Arguments
  | [] => if p.waiting.isSome then .error .usage else .ok (.complete p.settings p.words)
  | a :: as => do
    match p.waiting, formOf a with
    | some o, .word =>
      let settings ← p.settings.setValue o a
      readArguments level false { p with settings := settings, waiting := none } as
    | some _, _ => throw .usage
    | none, .separator => return .complete p.settings (p.words ++ as)
    | none, .long text => readArguments level false (← p.readLong level text) as
    | none, .short letters => readArguments level false (← p.readShort level letters) as
    | none, .word =>
      match level, command? a with
      | .top, some command =>
        if fresh then return .command command as else throw .usage
      | .top, none => throw .usage
      | .run, _ => throw .usage
      | .summary, _ => readArguments level false { p with words := p.words ++ [a] } as

/-- What the program is asked to do. -/
inductive Action where
  | run
  | summarise (paths : List String)
  deriving DecidableEq, Repr

/-- A command line that has been understood. -/
structure Invocation where
  settings : Settings
  action : Action
  deriving DecidableEq, Repr

namespace Invocation

/-- The invocation of a level. Only `show` takes words, and it needs one. -/
def ofLevel (level : Level) (settings : Settings) (words : List Argument) :
    Except Stop Invocation :=
  match level with
  | .summary => do
    if words = [] then throw .usage
    return ⟨settings, .summarise (← words.mapM textOf)⟩
  | _ => if words = [] then .ok ⟨settings, .run⟩ else .error .usage

/-- Understands a command line, given without the name of the program. -/
def parse (arguments : List Argument) : Except Stop Invocation := do
  let start : Progress := ⟨.none, [], none⟩
  match ← readArguments .top true start arguments with
  | .complete settings words => ofLevel .top settings words
  | .command level rest =>
    match ← readArguments level false start rest with
    | .complete settings words => ofLevel level settings words
    | .command _ _ => throw .usage

end Invocation
end Command
end FirmwareTests
