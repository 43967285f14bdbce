import Chip8.Machine.Execute
import Chip8.Machine.Log

/-!
# Cycles

A cycle takes the keys that are down and the current instant. A machine that waits for a key
ends the wait if one of the awaited keys is down; any other machine fetches the word at the
program counter, steps over it and executes it. Then the timers count the periods that have
passed. A cycle that fails stops there : the timers do not count, and all that it leaves
behind is the program counter after the fetch.

`Machine.run` is the fold of cycles over a list of inputs, up to the first fault.
-/

namespace Chip8

/-- What a cycle, or a run of several, leaves behind. -/
structure Run where
  /-- The machine at the end. -/
  machine : Machine
  /-- What the platform was told, in order. -/
  callbacks : List Callback := []
  /-- What was logged, in order. -/
  log : List LogEntry := []
  /-- Why the last cycle failed, if it did. -/
  fault : Option Fault := none

namespace Machine

/-! ## Construction -/

/-- A machine before its first cycle. -/
def new (settings : Settings) (random : Random) : Except Fault Machine :=
  (State.new settings).map fun state => ⟨state, random, none⟩

/-- What building a machine tells its platform and the log. -/
def created (m : Machine) : Run :=
  { machine := m, callbacks := [.init m.state], log := [.created m.state] }

/-- A machine with its random numbers started over from a seed. -/
def reseed (m : Machine) (seed : UInt64) : Machine := { m with random := Random.ofSeed seed }

/-- The machine with a program at `programStart` and the program counter on it. -/
def load (m : Machine) (program : List UInt8) : Except Fault Machine :=
  if m.state.freeMemory < program.length then
    .error (.outOfMemory program.length m.state.freeMemory)
  else
    .ok { m with state := { m.state with
            memory := m.state.memory.write programStart program
            pc := UInt16.ofNat programStart } }

/-- What loading a program tells the log. -/
def loadLog (program : List UInt8) : List LogEntry := [.loaded program.length]

/-! ## Timers -/

/-- Counts the timers down to `now`, and tells how often the machine beeped. The first
call only starts the clock. -/
def tick (m : Machine) (now : Nat) : Machine × Nat :=
  let s := m.state
  let (t, beeps) := Timers.drain s.timerInterval now ⟨s.delay, s.sound, m.clock.getD now⟩ 0
  ({ m with state := { s with delay := t.delay, sound := t.sound }, clock := some t.since }, beeps)

/-! ## Instructions -/

/-- The word at the program counter, if all of it lies in memory. -/
def fetch (s : State) : Except Fault UInt16 :=
  if s.memory.size < s.pc.toNat + 2 then .error (.invalidMemoryAccess s.pc 2)
  else .ok (wordOf (s.memory.read s.pc.toNat) (s.memory.read (s.pc.toNat + 1)))

/-- Fetches an instruction and executes it, without the timers. -/
def step (m : Machine) : Run :=
  match fetch m.state with
  | .error fault => { machine := m, fault := some fault }
  | .ok word =>
    let op := Operation.decode word
    let fetched := { m with state := { m.state with pc := m.state.pc + 2 } }
    let entry := LogEntry.fetched m.state.pc word
    match fetched.execute m.state.pc op with
    | .error fault => { machine := fetched, log := [entry], fault := some fault }
    | .ok effect =>
      { machine := effect.machine, callbacks := effect.callbacks,
        log := entry :: LogEntry.ofOperation op }

/-- Ends a wait for a key if one of the awaited keys is down. -/
def await (m : Machine) (wait : KeyWait) : Run :=
  match Keypad.lowest? (m.state.keyboard &&& wait.mask) with
  | none => { machine := m }
  | some key =>
    let state := m.state.setRegister wait.register (UInt8.ofNat key.val)
    { machine := { m with state := { state with keyWait := none } },
      log := [.keyStored key wait.register] }

/-- What a cycle does between the poll of the keyboard and the timers. -/
def advance (m : Machine) : Run :=
  match m.state.keyWait with
  | some wait => m.await wait
  | none => m.step

/-- A machine with other keys down. -/
def withKeyboard (m : Machine) (keyboard : UInt16) : Machine :=
  { m with state := { m.state with keyboard := keyboard } }

/-- A cycle with the given keys down, at the instant `now`. -/
def cycle (m : Machine) (keyboard : UInt16) (now : Nat) : Run :=
  let c := (m.withKeyboard keyboard).advance
  match c.fault with
  | some _ => { c with callbacks := .cycle :: c.callbacks }
  | none =>
    let (ticked, beeps) := c.machine.tick now
    { c with
      machine := ticked
      callbacks := .cycle :: c.callbacks ++ List.replicate beeps .beep }

/-! ## Runs -/

/-- What a cycle is given : the keys that are down and the instant. -/
structure Input where
  /-- The keys that are down. -/
  keyboard : UInt16
  /-- The instant in nanoseconds. -/
  now : Nat
  deriving DecidableEq, Repr

/-- Cycles with the given inputs, up to the first fault. -/
def run (m : Machine) : List Input → Run
  | [] => { machine := m }
  | i :: is =>
    let c := m.cycle i.keyboard i.now
    match c.fault with
    | some _ => c
    | none =>
      let r := c.machine.run is
      { r with callbacks := c.callbacks ++ r.callbacks, log := c.log ++ r.log }

/-! ## Basic facts -/

@[simp] theorem run_nil (m : Machine) : m.run [] = { machine := m } := rfl

theorem await_fault (m : Machine) (wait : KeyWait) : (m.await wait).fault = none := by
  unfold await; split <;> rfl

theorem advance_of_waiting {m : Machine} {wait : KeyWait} (h : m.state.keyWait = some wait) :
    m.advance = m.await wait := by simp [advance, h]

theorem advance_of_not_waiting {m : Machine} (h : m.state.keyWait = none) :
    m.advance = m.step := by simp [advance, h]

theorem fault_cycle (m : Machine) (keyboard : UInt16) (now : Nat) :
    (m.cycle keyboard now).fault = (m.withKeyboard keyboard).advance.fault := by
  unfold cycle; simp only; split <;> simp_all

/-- A machine that waits for a key does not fail. -/
theorem fault_cycle_of_waiting {m : Machine} {wait : KeyWait} (h : m.state.keyWait = some wait)
    (keyboard : UInt16) (now : Nat) : (m.cycle keyboard now).fault = none := by
  have hwait : (m.withKeyboard keyboard).state.keyWait = some wait := h
  rw [fault_cycle, advance_of_waiting hwait, await_fault]

end Machine

end Chip8
