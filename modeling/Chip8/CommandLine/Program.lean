import Chip8.CommandLine.Session

/-!
# The program

What each command does. `start` carries out a command as far as it needs no time : it ends
the program, or opens a session whose frames are still to run. Whatever was sent to the
terminal on the way is given as commands.
-/

namespace Chip8

namespace CommandLine

/-- Where the program is carried out. -/
structure Environment where
  /-- The files. -/
  files : Files
  /-- Whether there is a terminal to take over. -/
  terminal : Bool := false
  /-- Whether output may be coloured. -/
  color : Bool := false
  /-- Random numbers for a machine without a seed. -/
  random : Random := Random.ofSeed 0

/-- What became of a command : the end of the program, or a session. -/
inductive Started where
  /-- The program ended. -/
  | ended (outcome : Outcome)
  /-- A session is open. -/
  | session (s : Session)

/-- The listing of a program. -/
def disasm (env : Environment) (program : String) (color : Bool) : Outcome :=
  match env.files program with
  | .error e => failure ("Failed to read '" ++ program ++ "'") [e.message]
  | .ok bytes => { code := 0, output := listing (color && env.color) (records bytes.toList) }

/-- The settings that options describe. -/
def config (env : Environment) (options : MachineOptions) : Outcome :=
  match options.settings env.files with
  | .error fault => failure "Invalid machine settings" (causesOf fault)
  | .ok settings => { code := 0, output := settings.toText ++ "\n" }

/-- A machine with a program loaded from a file, and the size of the program. -/
def loadFile (files : Files) (m : Machine) (program : String) : Except Fault (Machine × Nat) :=
  match files program with
  | .error e => .error (.file e)
  | .ok bytes => (m.load bytes.toList).map fun m => (m, bytes.size)

/-- A new terminal, taken over if there is one. -/
def openTerminal (env : Environment) (s : State) : Terminal × List Terminal.Command :=
  if env.terminal then ({} : Terminal).enter s else ({}, [])

/-- Opens a session with a program. -/
def openSession (env : Environment) (settings : Settings) (program : String)
    (frequency : UInt64) (seed : Option UInt64) (listing : Bool) :
    Started × List Terminal.Command :=
  match Machine.new settings ((seed.map Random.ofSeed).getD env.random) with
  | .error fault => (.ended (failure "Failed to create the machine" (causesOf fault)), [])
  | .ok machine =>
    let (terminal, opened) := openTerminal env machine.state
    match loadFile env.files machine program with
    | .error fault =>
      (.ended (failure ("Failed to load '" ++ program ++ "'") (causesOf fault)),
       opened ++ terminal.restore.2)
    | .ok (machine, size) =>
      (.session
        { machine := machine, terminal := terminal, pacer := { frequency := frequency },
          programSize := size, listing := listing },
       opened)

/-- Starts a run. -/
def startRun (env : Environment) (program : String) (options : MachineOptions)
    (frequency : String) (seed : Option UInt64) (listing : Bool) :
    Started × List Terminal.Command :=
  match options.settings env.files with
  | .error fault => (.ended (failure "Invalid machine settings" (causesOf fault)), [])
  | .ok settings =>
    match readFrequency frequency.toList with
    | .error e => (.ended (failure e.message []), [])
    | .ok hz => openSession env settings program hz seed listing

/-- Carries out a command line up to the frames of a session. -/
def start (env : Environment) (arguments : List String) : Started × List Terminal.Command :=
  match read arguments with
  | .error e => (.ended e.outcome, [])
  | .ok invocation =>
    match invocation.command with
    | .run program options frequency seed noListing =>
      startRun env program options frequency seed !noListing
    | .disasm program noColor => (.ended (disasm env program !noColor), [])
    | .config options => (.ended (config env options), [])

end CommandLine

end Chip8
