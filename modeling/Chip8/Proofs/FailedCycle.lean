import Chip8.Proofs.InRange

/-!
# Cycles that fail

An operation checks what it needs before it changes anything, and the timers count only after
it. So a cycle that fails leaves the machine as the poll of the keyboard found it, except that
the program counter is behind the word if there was one to fetch (`Machine.leftBehind`).

`cycle_of_fault` says this of the cycle that hands a machine over whole, and of the cycle that
changes the machine in place, where each failing branch could have left half of its changes
behind.
-/

namespace Chip8

namespace Machine

variable {m : Machine} {fault : Fault}

/-- What a failing cycle leaves behind of the machine that polled its keyboard. -/
def leftBehind (m : Machine) : Machine :=
  if m.state.memory.size < m.state.pc.toNat + 2 then m else m.fetched

/-- A failing step leaves the machine as it is, but for the program counter. -/
theorem step_of_fault (h : m.step.fault = some fault) :
    m.step.machine = m.leftBehind ∧ m.step.callbacks = [] := by
  unfold step at h ⊢
  unfold leftBehind fetch at *
  split_ifs at h ⊢ with hend
  · exact ⟨rfl, rfl⟩
  · dsimp only at h ⊢
    split at h
    · exact ⟨rfl, rfl⟩
    · cases h

theorem advance_of_fault (h : m.advance.fault = some fault) :
    m.advance.machine = m.leftBehind ∧ m.advance.callbacks = [] := by
  cases hwait : m.state.keyWait with
  | some wait =>
    rw [advance_of_waiting hwait, await_fault] at h
    cases h
  | none =>
    rw [advance_of_not_waiting hwait] at h ⊢
    exact step_of_fault h

/-- A cycle that fails changes nothing after its poll of the keyboard but the program counter,
which is moved by two if both bytes of the word lay in memory, and tells the platform nothing
but that it began. The same holds where every operation changes the machine step by step, so
that no operation fails after its first change. -/
theorem cycle_of_fault (hm : m.state.WellFormed) {keyboard : UInt16} {now : Nat}
    (h : (m.cycle keyboard now).fault = some fault) :
    (m.cycle keyboard now).machine = (m.withKeyboard keyboard).leftBehind ∧
      (m.cycle keyboard now).callbacks = [.cycle] ∧
      ∀ told, (InPlace.cycle keyboard now).run ⟨m, told⟩ =
        some (.error fault, ⟨(m.withKeyboard keyboard).leftBehind, told ++ [.cycle]⟩) := by
  have hadvance : (m.withKeyboard keyboard).advance.fault = some fault := by
    rw [← fault_cycle m keyboard now, h]
  obtain ⟨hmachine, hcallbacks⟩ := advance_of_fault hadvance
  have hcycle : m.cycle keyboard now = { (m.withKeyboard keyboard).advance with
      callbacks := .cycle :: (m.withKeyboard keyboard).advance.callbacks } := by
    simp only [cycle, hadvance]
  have hleft : (m.cycle keyboard now).machine = (m.withKeyboard keyboard).leftBehind := by
    rw [hcycle, hmachine]
  have htold : (m.cycle keyboard now).callbacks = [.cycle] := by rw [hcycle, hcallbacks]
  refine ⟨hleft, htold, fun told => ?_⟩
  rw [InPlace.run_cycle told hm, InPlace.outcome, Run.result, h, hleft, htold]

/-- Of three digits that go to the end of memory, where two would fit, none is written. -/
theorem cycle_of_fault_storeDecimal : ∃ m : Machine, m.state.WellFormed ∧
    (m.cycle 0xFFFF 40).fault = some (.invalidMemoryAccess 0x200 3) ∧
    (m.cycle 0xFFFF 40).machine.state.pc = 0x202 ∧
    (m.cycle 0xFFFF 40).machine.state.memory.slice 0x200 2 = [0xF0, 0x33] ∧
    (m.cycle 0xFFFF 40).machine.clock = none := by
  let built : State := .holding .smallest 0x200 [0xF0, 0x33]
  let m : Machine := ⟨{ built with index := 0x200 }, .ofSeed 0, none⟩
  have hbuilt : built.WellFormed := .holding Settings.valid_smallest _ _
  have hm : m.state.WellFormed := hbuilt.of_sameShape (.withIndex built 0x200)
  have hfault : (m.cycle 0xFFFF 40).fault = some (.invalidMemoryAccess 0x200 3) := by
    decide +kernel
  obtain ⟨hleft, -, -⟩ := cycle_of_fault hm hfault
  refine ⟨m, hm, hfault, ?_⟩
  rw [hleft]
  decide +kernel

end Machine

end Chip8
