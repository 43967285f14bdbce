import Chip8.CommandLine.Options
import Chip8.Quantity

/-!
# Reading a command line

Arguments are read from left to right. A switch stands alone; a parameter takes the rest of
its argument, or the next argument unless that looks like an option; `--` ends the options.
A parameter that still waits for its value is settled when the next option comes, so of two
mistakes the one that is settled first is reported.
-/

namespace Chip8

namespace CommandLine

/-- Why a command line is not carried out. -/
inductive UsageError where
  /-- There is no such option, or no place for a value. -/
  | unknownArgument
  /-- There is no such command. -/
  | unknownCommand
  /-- A value that is needed was not given. -/
  | missingArgument
  /-- No command was given. -/
  | missingCommand
  /-- An option was given twice. -/
  | repeated
  /-- A value is not of the kind that is needed. -/
  | badValue
  /-- A parameter was given without its value. -/
  | missingValue
  /-- A switch was given a value. -/
  | unwantedValue
  /-- Help was asked for. -/
  | helpWanted
  /-- The version was asked for. -/
  | versionWanted
  /-- Nothing was given. -/
  | nothingGiven
  deriving DecidableEq, Repr

/-! ## Options -/

/-- The commands by name. -/
inductive CommandName where
  | run
  | disasm
  | config
  deriving DecidableEq, Repr

/-- Options without a value. -/
inductive Switch where
  | verbose
  | help
  | version
  | legacy
  | noCompact
  | noListing
  | noColor
  deriving DecidableEq, Repr

/-- Values; all but the program are given by an option. -/
inductive Parameter where
  | program
  | config
  | width
  | height
  | memory
  | stack
  | frequency
  | seed
  deriving DecidableEq, Repr

/-- A switch, or a parameter that is given by an option. -/
inductive Target where
  | switch (s : Switch)
  | parameter (p : Parameter)
  deriving DecidableEq, Repr

/-- The name of a command. -/
def CommandName.text : CommandName → String
  | run => "run"
  | disasm => "disasm"
  | config => "config"

/-- The command with a name. -/
def CommandName.ofText? (text : String) : Option CommandName :=
  [run, disasm, config].find? fun c => c.text = text

/-- The name by which help is asked for like a command. -/
def helpCommand : String := "help"

/-- The long name of an option. -/
def Target.long : Target → String
  | switch .verbose => "verbose"
  | switch .help => "help"
  | switch .version => "version"
  | switch .legacy => "legacy"
  | switch .noCompact => "no-compact"
  | switch .noListing => "no-listing"
  | switch .noColor => "no-color"
  | parameter .program => ""
  | parameter .config => "config"
  | parameter .width => "width"
  | parameter .height => "height"
  | parameter .memory => "memory"
  | parameter .stack => "stack"
  | parameter .frequency => "frequency"
  | parameter .seed => "seed"

/-- The letter of an option, if it has one. -/
def Target.short? : Target → Option Char
  | switch .verbose => some 'v'
  | switch .help => some 'h'
  | switch .version => some 'V'
  | parameter .config => some 'c'
  | parameter .memory => some 'm'
  | parameter .frequency => some 'f'
  | parameter .seed => some 's'
  | _ => none

/-- The options that a machine takes. -/
def machineTargets : List Target :=
  [.parameter .config, .switch .legacy, .switch .noCompact, .parameter .width,
    .parameter .height, .parameter .memory, .parameter .stack]

/-- The options that may stand behind a command, or before any. -/
def targets : Option CommandName → List Target
  | none => [.switch .verbose, .switch .help, .switch .version]
  | some .run =>
    [.switch .verbose, .switch .help, .parameter .frequency, .parameter .seed, .switch .noListing]
      ++ machineTargets
  | some .disasm => [.switch .verbose, .switch .help, .switch .noColor]
  | some .config => [.switch .verbose, .switch .help] ++ machineTargets

/-- Whether a program may stand behind a command. -/
def takesProgram : Option CommandName → Bool
  | some .run => true
  | some .disasm => true
  | _ => false

/-! ## Values -/

/-- What a command line gave so far. -/
structure Given where
  /-- The switches. -/
  switches : List Switch := []
  /-- A path, as it was given. -/
  program : Option String := none
  /-- The options of the machine, without its switches. -/
  machine : MachineOptions := {}
  /-- The frequency, as it was given. -/
  frequency : Option String := none
  /-- The seed. -/
  seed : Option UInt64 := none
  deriving DecidableEq, Repr

namespace Given

/-- Whether a parameter has its value. -/
def has (g : Given) : Parameter → Bool
  | .program => g.program.isSome
  | .config => g.machine.config.isSome
  | .width => g.machine.width.isSome
  | .height => g.machine.height.isSome
  | .memory => g.machine.memory.isSome
  | .stack => g.machine.stack.isSome
  | .frequency => g.frequency.isSome
  | .seed => g.seed.isSome

/-- A path, which must not be empty. -/
def readPath (text : String) : Except UsageError String :=
  if text.isEmpty then .error .missingValue else .ok text

/-- A number of pixels, which may have a sign. -/
def readPixels (text : String) : Except UsageError UInt8 :=
  let value :=
    match text.toList with
    | '-' :: cs => Numeral.read? 10 1 cs
    | cs => Numeral.readSigned? 10 256 cs
  match value with
  | some n => .ok (UInt8.ofNat n)
  | none => .error .badValue

/-- A decimal number of 64 bits. -/
def readSize (text : String) : Except UsageError UInt64 :=
  match Numeral.readSigned? 10 UInt64.size text.toList with
  | some n => .ok (UInt64.ofNat n)
  | none => .error .badValue

/-- A number of 64 bits, in decimal or hex. -/
def readWord (text : String) : Except UsageError UInt64 :=
  match readNumber text.toList with
  | .ok n => .ok n
  | .error _ => .error .badValue

/-- Gives a parameter its value. -/
def set (g : Given) (text : String) : Parameter → Except UsageError Given
  | .program => (readPath text).map fun v => { g with program := some v }
  | .config =>
    (readPath text).map fun v => { g with machine := { g.machine with config := some v } }
  | .width =>
    (readPixels text).map fun v => { g with machine := { g.machine with width := some v } }
  | .height =>
    (readPixels text).map fun v => { g with machine := { g.machine with height := some v } }
  | .memory =>
    (readWord text).map fun v => { g with machine := { g.machine with memory := some v } }
  | .stack =>
    (readSize text).map fun v => { g with machine := { g.machine with stack := some v } }
  | .frequency => .ok { g with frequency := some text }
  | .seed => (readWord text).map fun v => { g with seed := some v }

/-- Gives a parameter its value, unless it has one. -/
def setOnce (g : Given) (p : Parameter) (text : String) : Except UsageError Given :=
  if g.has p then .error .repeated else g.set text p

/-- Turns a switch on. Help and the version end the reading. -/
def turnOn (g : Given) (s : Switch) : Except UsageError Given :=
  match s with
  | .help => .error .helpWanted
  | .version => .error .versionWanted
  | s => if s ∈ g.switches then .error .repeated else .ok { g with switches := s :: g.switches }

/-- The options of a machine with their switches. -/
def machineOptions (g : Given) : MachineOptions :=
  { g.machine with
    legacy := decide (Switch.legacy ∈ g.switches)
    noCompact := decide (Switch.noCompact ∈ g.switches) }

end Given

/-! ## Arguments -/

/-- Where the reading stands. -/
structure Progress where
  /-- The command whose options are read, none before it. -/
  scope : Option CommandName := none
  /-- What was given. -/
  given : Given := {}
  /-- A parameter that is not settled yet, with its value if it came. -/
  pending : Option (Parameter × Option String) := none
  /-- Whether more is logged, by a switch before the command. -/
  verbose : Bool := false
  deriving DecidableEq, Repr

namespace Progress

/-- Settles the pending parameter. -/
def settle (p : Progress) : Except UsageError Progress :=
  match p.pending with
  | none => .ok p
  | some (_, none) => .error .missingValue
  | some (q, some text) =>
    (p.given.setOnce q text).map fun g => { p with given := g, pending := none }

/-- Turns a switch on. -/
def turnOn (p : Progress) (s : Switch) : Except UsageError Progress :=
  p.settle.bind fun p => (p.given.turnOn s).map fun g => { p with given := g }

/-- Takes an option for a parameter, with the value that is attached to it, if any. -/
def takeOption (p : Progress) (q : Parameter) (attached : Option String) :
    Except UsageError Progress :=
  p.settle.bind fun p =>
    match attached with
    | some text => (p.given.setOnce q text).map fun g => { p with given := g }
    | none => .ok { p with pending := some (q, none) }

/-- Takes `--name` or `--name=value`. -/
def takeLong (p : Progress) (text : List Char) : Except UsageError Progress :=
  let name := String.ofList (text.takeWhile (· ≠ '='))
  let attached :=
    match text.dropWhile (· ≠ '=') with
    | _ :: value => some (String.ofList value)
    | [] => none
  match (targets p.scope).find? fun t => t.long = name with
  | none => .error .unknownArgument
  | some (.parameter q) => p.takeOption q attached
  | some (.switch s) => if attached.isSome then .error .unwantedValue else p.turnOn s

/-- Takes the letters behind a single hyphen. The first parameter takes the rest. -/
def takeShort (p : Progress) : List Char → Except UsageError Progress
  | [] => .ok p
  | c :: cs =>
    match (targets p.scope).find? fun t => t.short? = some c with
    | none => .error .unknownArgument
    | some (.switch s) => (p.turnOn s).bind fun p => p.takeShort cs
    | some (.parameter q) =>
      p.takeOption q
        (match cs with
        | [] => none
        | '=' :: value => some (String.ofList value)
        | value => some (String.ofList value))

/-- Whether the program was given, settled or not. -/
def hasProgram (p : Progress) : Bool :=
  match p.pending with
  | some (.program, _) => true
  | _ => p.given.program.isSome

/-- Takes a program. Where there is no place for one, the error is `unplaced`. -/
def takeProgram (p : Progress) (text : String) (unplaced : UsageError) :
    Except UsageError Progress :=
  if !takesProgram p.scope then .error unplaced
  else if p.hasProgram then .error .unknownArgument
  else p.settle.map fun p => { p with pending := some (.program, some text) }

/-- Takes an argument that is no option. -/
def takeValue (p : Progress) (text : String) : Except UsageError Progress :=
  match p.pending with
  | some (q, none) => .ok { p with pending := some (q, some text) }
  | _ => p.takeProgram text (if p.scope = none then .unknownCommand else .unknownArgument)

/-- Takes an argument behind `--`, where a command is out of place. -/
def takeTrailing (p : Progress) (text : String) : Except UsageError Progress :=
  let command : Bool := (CommandName.ofText? text).isSome || text == helpCommand
  p.takeProgram text (if p.scope = none ∧ !command then .unknownCommand else .unknownArgument)

/-- The command line that was read. -/
def finish (p : Progress) : Except UsageError Invocation :=
  p.settle.bind fun p =>
    let g := p.given
    let verbose : Bool := p.verbose || decide (Switch.verbose ∈ g.switches)
    match p.scope, g.program with
    | none, _ => .error (if g.switches.isEmpty then .nothingGiven else .missingCommand)
    | some .config, _ => .ok ⟨.config g.machineOptions, verbose⟩
    | _, none => .error .missingArgument
    | some .run, some program =>
      .ok ⟨.run program g.machineOptions (g.frequency.getD defaultFrequency) g.seed
        (decide (Switch.noListing ∈ g.switches)), verbose⟩
    | some .disasm, some program =>
      .ok ⟨.disasm program (decide (Switch.noColor ∈ g.switches)), verbose⟩

/-- Reads the options of a command behind those given before it. -/
def enter (p : Progress) (name : CommandName) : Progress :=
  { scope := some name, verbose := decide (Switch.verbose ∈ p.given.switches) }

end Progress

/-- Help, if the names behind `help` are those of a command. -/
def readHelp : List String → UsageError
  | [] => .helpWanted
  | [name] =>
    if (CommandName.ofText? name).isSome ∨ name = helpCommand then .helpWanted
    else .unknownCommand
  | _ :: _ :: _ => .unknownCommand

/-- Reads the arguments behind `--`. -/
def readTrailing (p : Progress) : List String → Except UsageError Invocation
  | [] => p.finish
  | text :: rest => (p.takeTrailing text).bind fun p => readTrailing p rest

/-- Reads on with an argument that names no command. -/
def takeArgument (p : Progress) (text : String) : Except UsageError Progress :=
  match text.toList with
  | '-' :: '-' :: name => p.takeLong name
  | '-' :: c :: cs => p.takeShort (c :: cs)
  | _ => p.takeValue text

/-- Reads arguments from left to right. -/
def readArguments (p : Progress) : List String → Except UsageError Invocation
  | [] => p.finish
  | text :: rest =>
    if text = "--" then readTrailing p rest
    else if p.scope = none ∧ text = helpCommand then .error (readHelp rest)
    else
      match p.scope, CommandName.ofText? text with
      | none, some name => readArguments (p.enter name) rest
      | _, _ => (takeArgument p text).bind fun p => readArguments p rest

/-- Reads a command line, without the name of the program. -/
def read (arguments : List String) : Except UsageError Invocation := readArguments {} arguments

end CommandLine

end Chip8
