import Chip8.Proofs.Fault

/-!
# What a cycle executes

A machine that does not wait for a key, and whose word lies in memory, executes the operation
that the word spells (`State.operation?`). The equations of `Machine.step` and `Machine.cycle`
are here, one for each way in which they come out, so that later proofs need not take the two
functions apart. `Machine.cycle_cases` says what there is to a cycle that executes nothing, or
fails.
-/

namespace Chip8

/-- The operation that the next cycle executes, if it executes one. -/
def State.operation? (s : State) : Option Operation :=
  if s.keyWait.isSome then none else (Machine.fetch s).toOption.map Operation.decode

theorem State.operation?_eq_some_iff {s : State} {op : Operation} :
    s.operation? = some op ↔
      s.keyWait = none ∧ ∃ word, Machine.fetch s = .ok word ∧ Operation.decode word = op := by
  unfold operation?
  cases s.keyWait <;> cases Machine.fetch s <;> simp [Except.toOption]

/-- The operation is the one that the word at the program counter spells. -/
theorem State.fetch_of_operation? {s : State} {op : Operation} (h : s.operation? = some op) :
    s.keyWait = none ∧ Machine.fetch s = .ok s.word ∧ Operation.decode s.word = op := by
  obtain ⟨hwait, word, hfetch, hdecode⟩ := operation?_eq_some_iff.1 h
  by_cases hend : s.memory.size < s.pc.toNat + 2
  · rw [Machine.fetch, if_pos hend] at hfetch
    cases hfetch
  · rw [Machine.fetch_ok hend] at hfetch ⊢
    cases hfetch
    exact ⟨hwait, rfl, hdecode⟩

/-- `t` has the memory, the index register, the stack and the screen of `s`. -/
structure State.Untouched (s t : State) : Prop where
  memory : t.memory = s.memory
  index : t.index = s.index
  stack : t.stack = s.stack
  screen : t.screen = s.screen

namespace Machine

variable {m : Machine} {word : UInt16} {fault : Fault} {effect : Effect}

/-! ## Steps -/

theorem step_of_fetch_error (h : fetch m.state = .error fault) :
    m.step = { machine := m, fault := some fault } := by
  rw [step, h]

theorem step_of_execute_error (h : fetch m.state = .ok word)
    (hexecute : m.fetched.execute m.state.pc (Operation.decode word) = .error fault) :
    m.step =
      { machine := m.fetched, log := [.fetched m.state.pc word], fault := some fault } := by
  unfold fetched at hexecute ⊢
  simp only [step, h, hexecute]

theorem step_of_execute_ok (h : fetch m.state = .ok word)
    (hexecute : m.fetched.execute m.state.pc (Operation.decode word) = .ok effect) :
    m.step =
      { machine := effect.machine
        callbacks := effect.callbacks
        log := .fetched m.state.pc word :: LogEntry.ofOperation (Operation.decode word) } := by
  unfold fetched at hexecute
  simp only [step, h, hexecute]

/-- A machine that executes no operation waits for a key, or has no word to fetch. -/
theorem advance_of_operation?_eq_none (hop : m.state.operation? = none) :
    (∃ wait, m.state.keyWait = some wait ∧ m.advance = m.await wait) ∨
      ∃ fault, m.advance = { machine := m, fault := some fault } := by
  cases hwait : m.state.keyWait with
  | some wait => exact .inl ⟨wait, rfl, advance_of_waiting hwait⟩
  | none =>
    cases hfetch : fetch m.state with
    | error fault =>
      exact .inr ⟨fault, (advance_of_not_waiting hwait).trans (step_of_fetch_error hfetch)⟩
    | ok word =>
      rw [State.operation?_eq_some_iff.2 ⟨hwait, word, hfetch, rfl⟩] at hop
      cases hop

variable {op : Operation}

theorem advance_of_operation_ok (hop : m.state.operation? = some op)
    (hexecute : m.fetched.execute m.state.pc op = .ok effect) :
    m.advance =
      { machine := effect.machine
        callbacks := effect.callbacks
        log := .fetched m.state.pc m.state.word :: LogEntry.ofOperation op } := by
  obtain ⟨hwait, hfetch, rfl⟩ := State.fetch_of_operation? hop
  exact (advance_of_not_waiting hwait).trans (step_of_execute_ok hfetch hexecute)

theorem advance_of_operation_error (hop : m.state.operation? = some op)
    (hexecute : m.fetched.execute m.state.pc op = .error fault) :
    m.advance =
      { machine := m.fetched
        log := [.fetched m.state.pc m.state.word]
        fault := some fault } := by
  obtain ⟨hwait, hfetch, rfl⟩ := State.fetch_of_operation? hop
  exact (advance_of_not_waiting hwait).trans (step_of_execute_error hfetch hexecute)

/-! ## Cycles -/

variable {keyboard : UInt16} {now : Nat}

theorem cycle_of_advance_fault (h : (m.withKeyboard keyboard).advance.fault = some fault) :
    m.cycle keyboard now =
      { (m.withKeyboard keyboard).advance with
        callbacks := .cycle :: (m.withKeyboard keyboard).advance.callbacks } := by
  simp only [cycle, h]

/-- Only a cycle that has not failed counts the timers. -/
theorem cycle_of_advance_ok (h : (m.withKeyboard keyboard).advance.fault = none) :
    m.cycle keyboard now =
      { (m.withKeyboard keyboard).advance with
        machine := ((m.withKeyboard keyboard).advance.machine.tick now).1
        callbacks := .cycle :: (m.withKeyboard keyboard).advance.callbacks ++
          List.replicate ((m.withKeyboard keyboard).advance.machine.tick now).2 .beep } := by
  simp only [cycle, h]

/-- A cycle whose operation fails. -/
theorem cycle_of_operation_error (hop : m.state.operation? = some op)
    (hexecute : (m.withKeyboard keyboard).fetched.execute m.state.pc op = .error fault) :
    m.cycle keyboard now =
      { machine := (m.withKeyboard keyboard).fetched
        callbacks := [.cycle]
        log := [.fetched m.state.pc m.state.word]
        fault := some fault } := by
  have hadvance := advance_of_operation_error (m := m.withKeyboard keyboard) hop hexecute
  rw [cycle_of_advance_fault (by rw [hadvance]), hadvance]
  rfl

/-- A cycle whose operation does not fail. -/
theorem cycle_of_operation_ok (hop : m.state.operation? = some op)
    (hexecute : (m.withKeyboard keyboard).fetched.execute m.state.pc op = .ok effect) :
    m.cycle keyboard now =
      { machine := (effect.machine.tick now).1
        callbacks := .cycle :: effect.callbacks ++ List.replicate (effect.machine.tick now).2 .beep
        log := .fetched m.state.pc m.state.word :: LogEntry.ofOperation op } := by
  have hadvance := advance_of_operation_ok (m := m.withKeyboard keyboard) hop hexecute
  rw [cycle_of_advance_ok (by rw [hadvance]), hadvance]
  rfl

/-- A cycle that does not fail executes its operation and ticks. -/
theorem exists_execute_of_cycle (hop : m.state.operation? = some op)
    (hok : (m.cycle keyboard now).fault = none) :
    ∃ effect, (m.withKeyboard keyboard).fetched.execute m.state.pc op = .ok effect ∧
      (m.cycle keyboard now).machine = (effect.machine.tick now).1 := by
  cases hexecute : (m.withKeyboard keyboard).fetched.execute m.state.pc op with
  | error fault =>
    rw [cycle_of_operation_error hop hexecute] at hok
    cases hok
  | ok effect =>
    rw [cycle_of_operation_ok hop hexecute]
    exact ⟨effect, rfl, rfl⟩

/-- A cycle executes an operation that does not fail, or touches neither memory nor the index
register, the stack and the screen, and then has nothing to tell the platform but beeps. -/
theorem cycle_cases (m : Machine) (keyboard : UInt16) (now : Nat) :
    (m.state.Untouched (m.cycle keyboard now).machine.state ∧
      ∃ beeps, (m.cycle keyboard now).callbacks = .cycle :: List.replicate beeps .beep) ∨
      ∃ op effect, m.state.operation? = some op ∧
        (m.withKeyboard keyboard).fetched.execute m.state.pc op = .ok effect ∧
        m.cycle keyboard now =
          { machine := (effect.machine.tick now).1
            callbacks :=
              .cycle :: effect.callbacks ++ List.replicate (effect.machine.tick now).2 .beep
            log := .fetched m.state.pc m.state.word :: LogEntry.ofOperation op } := by
  cases hop : m.state.operation? with
  | none =>
    left
    obtain ⟨wait, -, hadvance⟩ | ⟨fault, hadvance⟩ :=
      advance_of_operation?_eq_none (m := m.withKeyboard keyboard) hop
    · rw [cycle_of_advance_ok (by rw [hadvance, await_fault]), hadvance]
      unfold await
      split <;> exact ⟨⟨rfl, rfl, rfl, rfl⟩, _, rfl⟩
    · rw [cycle_of_advance_fault (by rw [hadvance]), hadvance]
      exact ⟨⟨rfl, rfl, rfl, rfl⟩, 0, rfl⟩
  | some op =>
    cases hexecute : (m.withKeyboard keyboard).fetched.execute m.state.pc op with
    | error fault =>
      rw [cycle_of_operation_error hop hexecute]
      exact .inl ⟨⟨rfl, rfl, rfl, rfl⟩, 0, rfl⟩
    | ok effect => exact .inr ⟨op, effect, rfl, hexecute, cycle_of_operation_ok hop hexecute⟩

/-! ## Runs -/

variable {i : Input} {is : List Input}

theorem run_of_fault (h : (m.cycle i.keyboard i.now).fault = some fault) :
    m.run (i :: is) = m.cycle i.keyboard i.now := by
  simp only [run, h]

theorem run_of_ok (h : (m.cycle i.keyboard i.now).fault = none) :
    m.run (i :: is) =
      { (m.cycle i.keyboard i.now).machine.run is with
        callbacks := (m.cycle i.keyboard i.now).callbacks ++
          ((m.cycle i.keyboard i.now).machine.run is).callbacks
        log := (m.cycle i.keyboard i.now).log ++
          ((m.cycle i.keyboard i.now).machine.run is).log } := by
  simp only [run, h]

end Machine

end Chip8
