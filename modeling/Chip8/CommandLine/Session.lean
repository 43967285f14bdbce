import Chip8.CommandLine.Report
import Chip8.Listing
import Chip8.Pacer
import Chip8.Terminal.Platform

/-!
# Sessions

A session runs a machine frame by frame, sixty frames a second, until the program fails or
escape is pressed. The pacer says how many cycles a frame has. They run one after the other,
the rest of the frame is slept through, and the end of the session is looked for only between
frames. A frame with too many cycles takes longer than a sixtieth of a second. An overflow stops
the session where it happens : before a frame whose cycles the pacer cannot work out, or in a
cycle that draws a slot of the call stack that has no row.

The session keeps the time itself : a cycle takes `cycleDuration`, and a sleep ends `wakeDelay`
later than it should. Key events wait in groups, of which every cycle takes one.

When a session ends it gives the terminal back, and prints the listing of the memory that
the program was loaded to, or the report of the fault or of the overflow.
-/

namespace Chip8

namespace CommandLine

/-- How long a cycle takes, in nanoseconds. -/
def cycleDuration : Nat := 1000

/-- How much too late a sleep ends, in nanoseconds. -/
def wakeDelay : Nat := 60000

/-- A machine that runs in a terminal. -/
structure Session where
  /-- The machine. -/
  machine : Machine
  /-- The terminal that shows it. -/
  terminal : Terminal
  /-- The cycles of the frames. -/
  pacer : Pacer
  /-- The bytes of the program. -/
  programSize : Nat
  /-- Whether a listing is printed at the end. -/
  listing : Bool
  /-- The groups of key events that wait. -/
  pending : List (List KeyEvent) := []
  /-- The cycles of this frame that are still to run. -/
  left : Nat := 0
  /-- The time, in nanoseconds. -/
  now : Nat := 0
  /-- The end of this frame, if its cycles are done by then. -/
  due : Nat := 0
  /-- The fault that ended the session, if one did. -/
  fault : Option Fault := none
  /-- The overflow that stopped the session, if one did. -/
  overflow : Option Overflow := none

namespace Session

/-- A cycle of the machine, and what the terminal shows of it. -/
def cycle (s : Session) : Session × List Terminal.Command :=
  let (terminal, keyboard, begun) :=
    s.terminal.beginCycle (s.pending.headD []) s.machine.state s.now
  match begun.stop with
  | some overflow =>
    ({ s with terminal := terminal, pending := s.pending.tail, overflow := some overflow },
     begun.commands)
  | none =>
    let c := s.machine.cycle keyboard s.now
    let (terminal, shown) := terminal.handleAll c.callbacks
    ({ s with
        machine := c.machine, terminal := terminal, pending := s.pending.tail, fault := c.fault,
        left := s.left - 1, now := s.now + cycleDuration },
     begun.commands ++ shown)

/-- The time at which the next frame begins. -/
def nextBegin (s : Session) : Nat := if s.now < s.due then s.due + wakeDelay else s.now

/-- Begins the next frame. -/
def nextFrame (s : Session) : Session :=
  match s.pacer.next with
  | .error overflow => { s with now := s.nextBegin, overflow := some overflow }
  | .ok (cycles, pacer) =>
    { s with
      pacer := pacer, left := cycles.toNat, now := s.nextBegin, due := s.nextBegin + frameDuration }

/-- A cycle, or the begin of the next frame once all cycles of this one are done. -/
def step (s : Session) : Session × List Terminal.Command :=
  if s.left = 0 then (s.nextFrame, []) else s.cycle

/-- Whether the session is over. -/
def ended (s : Session) : Bool :=
  s.fault.isSome || s.overflow.isSome || (s.left == 0 && s.terminal.quit)

/-- So many steps, or all up to the end of the session. -/
def steps (s : Session) : Nat → Session
  | 0 => s
  | n + 1 => if s.ended then s else s.step.1.steps n

/-- The memory that the program was loaded to. -/
def programBytes (s : Session) : List UInt8 :=
  s.machine.state.memory.slice programStart s.programSize

/-- Gives the terminal back. A session that an overflow stopped first does so whether or not the
terminal was taken over. -/
def close (s : Session) : List Terminal.Command :=
  (if s.overflow.isSome then Terminal.leaving else []) ++ s.terminal.restore.2

/-- How the program ends after the session. -/
def outcome (s : Session) (color : Bool) : Outcome :=
  match s.overflow, s.fault with
  | some overflow, _ => stopped overflow
  | none, some fault => failure "Program stopped" (causesOf fault)
  | none, none =>
    if s.listing then { code := 0, output := Chip8.listing color (records s.programBytes) }
    else { code := 0 }

end Session

end CommandLine

end Chip8
