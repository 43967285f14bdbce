import Chip8.Settings.Text

/-!
# Commands and their options

The commands of the program, and how the options of a machine become its settings : the
settings of a file or the defaults, changed by what the command line gives, and only then
validated.
-/

namespace Chip8

/-- What reading a path gives. -/
abbrev Files := String → Except FileError ByteArray

namespace CommandLine

/-- Options for the settings of a machine. -/
structure MachineOptions where
  /-- A file with settings. -/
  config : Option String := none
  /-- Whether legacy mode is switched on. -/
  legacy : Bool := false
  /-- Whether the compact layout is switched off. -/
  noCompact : Bool := false
  /-- The width of the screen. -/
  width : Option UInt8 := none
  /-- The height of the screen. -/
  height : Option UInt8 := none
  /-- The size of memory. -/
  memory : Option UInt64 := none
  /-- The size of the call stack. -/
  stack : Option UInt64 := none
  deriving DecidableEq, Repr

/-- A command with its options. -/
inductive Command where
  /-- Runs a program in the terminal. -/
  | run (program : String) (machine : MachineOptions) (frequency : String) (seed : Option UInt64)
      (noListing : Bool)
  /-- Prints the listing of a program. -/
  | disasm (program : String) (noColor : Bool)
  /-- Prints the settings that the options describe. -/
  | config (machine : MachineOptions)
  deriving DecidableEq, Repr

/-- The files that a command reads. -/
def Command.paths : Command → List String
  | run program machine _ _ _ => machine.config.toList ++ [program]
  | disasm program _ => [program]
  | config machine => machine.config.toList

/-- A command line that was understood. -/
structure Invocation where
  /-- The command. -/
  command : Command
  /-- Whether more is logged. -/
  verbose : Bool
  deriving DecidableEq, Repr

/-- The frequency of a run that names none. -/
def defaultFrequency : String := "500Hz"

namespace MachineOptions

/-- Settings changed by the options. -/
def merge (o : MachineOptions) (s : Settings) : Settings where
  memorySize := o.memory.getD s.memorySize
  stackSize := o.stack.getD s.stackSize
  width := o.width.getD s.width
  height := o.height.getD s.height
  compactLayout := s.compactLayout && !o.noCompact
  legacyMode := s.legacyMode || o.legacy

/-- The settings before the options change them. -/
def base (o : MachineOptions) (files : Files) : Except Fault Settings :=
  match o.config with
  | none => .ok {}
  | some path =>
    match files path with
    | .error e => .error (.file e)
    | .ok bytes => Settings.ofBytes bytes

/-- The settings that the options describe, if they are valid. -/
def settings (o : MachineOptions) (files : Files) : Except Fault Settings :=
  match o.base files with
  | .error fault => .error fault
  | .ok s =>
    match (o.merge s).validate with
    | .ok () => .ok (o.merge s)
    | .error e => .error (.invalidSettings e)

theorem merge_default (s : Settings) : ({} : MachineOptions).merge s = s := by
  simp [merge]

end MachineOptions

end CommandLine

end Chip8
