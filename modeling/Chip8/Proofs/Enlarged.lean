import Chip8.Proofs.CallStack
import Chip8.Proofs.Simulation

/-!
# More memory and a deeper stack

A machine with more memory and a larger call stack does all that a smaller one can do, in the
same way. As long as the smaller one does not fail, the two differ in what is out of its reach
alone : the bytes behind its memory, which stay zero, and the slots behind its stack
(`State.Enlarged`).

`answers_enlarged` says so of two machines that are built, loaded and called alike. It is the
simulation `Simulation.enlargement`, which is not strict : where the smaller machine fails, the
larger one may go on.
-/

namespace Chip8

/-! ## Memory with zeros behind it -/

namespace Memory

/-- Memory with `n` zero bytes behind it. -/
def extend (m : Memory) (n : Nat) : Memory := m ++ Array.replicate n 0

variable (m : Memory) (n : Nat)

@[simp] theorem size_extend : (m.extend n).size = m.size + n := by simp [extend]

/-- Reading behind the end gives zero, as the bytes that are there now are. -/
@[simp] theorem read_extend (a : Nat) : (m.extend n).read a = m.read a := by
  simp only [extend, read, Array.getD_eq_getD_getElem?, Array.getElem?_append,
    Array.getElem?_replicate]
  split_ifs with h h' <;> simp [h]

theorem write_extend {a : Nat} {bs : List UInt8} (h : a + bs.length ≤ m.size) :
    (m.extend n).write a bs = (m.write a bs).extend n := by
  induction bs generalizing m a with
  | nil => rfl
  | cons b bs ih =>
    rw [List.length_cons] at h
    have hset : (m.extend n).setIfInBounds a b = extend (m.setIfInBounds a b) n :=
      Array.setIfInBounds_append_left (by omega)
    rw [write, write, hset, ih _ (by rw [Array.size_setIfInBounds]; omega)]

theorem replicate_extend (size : Nat) :
    extend (Array.replicate size 0) n = Array.replicate (size + n) 0 :=
  Array.replicate_append_replicate

end Memory

/-! ## The simulation -/

/-- Bytes of memory that the larger settings add. -/
def Settings.spare (small large : Settings) : Nat :=
  large.memorySize.toNat - small.memorySize.toNat

/-- Memory with zeros behind it, a stack with the same addresses and no less room, and other
settings. -/
def Simulation.enlargement (small large : Settings) : Simulation where
  memory m m' := m.size = small.memorySize.toNat ∧ m' = m.extend (small.spare large)
  stack s t := s.Alike t ∧ s.capacity ≤ t.capacity
  settings settings settings' := settings = small ∧ settings' = large
  strict := False
  read_eq h a := by rw [h.2, Memory.read_extend]
  size_le h := by
    rw [h.2, Memory.size_extend]
    exact Nat.le_add_right _ _
  size_eq hs := hs.elim
  write h _ _ hle := by
    refine ⟨(Memory.size_write ..).trans h.1, ?_⟩
    rw [h.2, Memory.write_extend _ _ hle]
  push h _ hpush := by
    obtain ⟨t, hpush', hlike⟩ := h.1.push h.2 hpush
    refine ⟨t, hpush', hlike, ?_⟩
    rw [CallStack.capacity_push hpush, CallStack.capacity_push hpush']
    exact h.2
  push_full hs := hs.elim
  pop h _ hpop := by
    obtain ⟨t, hpop', hlike⟩ := h.1.pop hpop
    refine ⟨t, hpop', hlike, ?_⟩
    rw [CallStack.capacity_pop hpop, CallStack.capacity_pop hpop']
    exact h.2
  pop_empty hs := hs.elim

/-! ## Enlarged states and runs -/

/-- The state `t` of the larger machine is `s`, but for memory behind the end, which is zero,
room on the stack, and the settings. -/
structure State.Enlarged (small large : Settings) (s t : State) : Prop where
  registers : t.registers = s.registers
  index : t.index = s.index
  pc : t.pc = s.pc
  stack : t.stack.toList = s.stack.toList
  delay : t.delay = s.delay
  sound : t.sound = s.sound
  keyboard : t.keyboard = s.keyboard
  keyWait : t.keyWait = s.keyWait
  screen : t.screen = s.screen
  interval : t.timerInterval = s.timerInterval
  size : s.memory.size = small.memorySize.toNat
  memory : t.memory = s.memory.extend (small.spare large)

/-- Machines in such states with the same random numbers to come and the same clock. -/
structure Machine.Enlarged (small large : Settings) (m m' : Machine) : Prop where
  state : m.state.Enlarged small large m'.state
  random : m'.random = m.random
  clock : m'.clock = m.clock

/-- Runs that do not fail, and tell the platform and the log the same. -/
structure Run.Enlarged (small large : Settings) (r r' : Run) : Prop where
  machine : r.machine.Enlarged small large r'.machine
  callbacks : List.Forall₂ (Callback.Alike (State.Enlarged small large)) r.callbacks r'.callbacks
  log : r'.log = r.log
  fault : r'.fault = none

theorem Callback.Alike.imp {R R' : State → State → Prop} (himp : ∀ s t, R s t → R' s t)
    {c c' : Callback} (h : Callback.Alike R c c') : Callback.Alike R' c c' := by
  cases h with
  | init h => exact .init (himp _ _ h)
  | cycle => exact .cycle
  | clearScreen => exact .clearScreen
  | screenUpdate h => exact .screenUpdate (himp _ _ h)
  | beep => exact .beep

namespace Simulation

variable {small large : Settings}

theorem enlarged_of_states {s t : State} (h : (enlargement small large).States s t) :
    s.Enlarged small large t := by
  cases h with
  | intro hmemory hstack =>
    exact ⟨rfl, rfl, rfl, hstack.1.toList, rfl, rfl, rfl, rfl, rfl, rfl, hmemory.1, hmemory.2⟩

theorem enlarged_of_machines {m m' : Machine} (h : (enlargement small large).Machines m m') :
    m.Enlarged small large m' :=
  ⟨enlarged_of_states h.state, h.random, h.clock⟩

theorem enlarged_of_runs {r r' : Run} (h : (enlargement small large).Runs r r')
    (hok : r.fault = none) : r.Enlarged small large r' :=
  ⟨enlarged_of_machines h.machine, h.callbacks.imp fun _ _ => .imp fun _ _ => enlarged_of_states,
    h.log, h.fault.trans hok⟩

/-- States are related before the first cycle if the settings agree on the screen. -/
theorem states_initial (hwidth : large.width = small.width) (hheight : large.height = small.height)
    (hmemory : small.memorySize ≤ large.memorySize) (hstack : small.stackSize ≤ large.stackSize)
    (hstart : programStart ≤ small.memorySize.toNat) :
    (enlargement small large).States (.initial small) (.initial large) := by
  have hzeros : Array.replicate large.memorySize.toNat 0 =
      Memory.extend (Array.replicate small.memorySize.toNat 0) (small.spare large) := by
    rw [Memory.replicate_extend, Settings.spare,
      Nat.add_sub_cancel' (UInt64.le_iff_toNat_le.1 hmemory)]
  have hfont : Font.start + Font.bytes.length ≤
      (Array.replicate small.memorySize.toNat (0 : UInt8)).size := by
    rw [Array.size_replicate]
    exact Nat.le_trans (by decide) hstart
  have hlarge : State.initial large =
      { State.initial small with
        memory := (State.initial small).memory.extend (small.spare large)
        stack := CallStack.empty large.stackSize.toNat
        settings := large } := by
    simp only [State.initial, hwidth, hheight, hzeros, Memory.write_extend _ _ hfont]
  rw [hlarge]
  refine .intro ⟨by simp [State.initial], rfl⟩ ⟨⟨Nat.zero_le _, Nat.zero_le _, ?_⟩, ?_⟩ ⟨rfl, rfl⟩
  · rw [CallStack.toList_empty]
    exact (CallStack.toList_empty _).symm
  · rw [CallStack.capacity_empty]
    exact (CallStack.capacity_empty _).trans_le (UInt64.le_iff_toNat_le.1 hstack)

end Simulation

/-! ## Machines that are built and loaded -/

namespace Machine

variable {settings : Settings} {seed : UInt64} {program : List UInt8} {m : Machine}

/-- A machine that is built from a seed and has a program loaded. -/
def boot (settings : Settings) (seed : UInt64) (program : List UInt8) : Except Fault Machine :=
  (Machine.new settings (.ofSeed seed)).bind fun m => m.load program

theorem boot_of_valid (h : settings.Valid) :
    boot settings seed program = load ⟨.initial settings, .ofSeed seed, none⟩ program := by
  rw [boot, new_eq_ok h]
  rfl

theorem boot_eq_ok (h : settings.Valid)
    (hroom : program.length ≤ settings.memorySize.toNat - programStart) :
    boot settings seed program = .ok ⟨.holding settings 0x200 program, .ofSeed seed, none⟩ :=
  (boot_of_valid h).trans (load_initial _ hroom)

/-- A machine that could be built has valid settings. -/
theorem valid_of_boot (h : boot settings seed program = .ok m) : settings.Valid := by
  cases hvalid : settings.validate with
  | ok => exact hvalid
  | error e =>
    simp only [boot, Machine.new, State.new, hvalid, Except.map, Except.bind] at h
    cases h

/-- What does not fail on a machine does not fail on one with more memory and room for more
calls, and comes to the same there, call by call. The machines stay equal in all that a program
or the platform can see but for the memory of the larger one, which begins with that of the
smaller one and is zero behind it. -/
theorem answers_enlarged {small large : Settings} (hlarge : large.Valid)
    (hwidth : large.width = small.width) (hheight : large.height = small.height)
    (hmode : large.legacyMode = small.legacyMode) (hmemory : small.memorySize ≤ large.memorySize)
    (hstack : small.stackSize ≤ large.stackSize) (hboot : boot small seed program = .ok m)
    (calls : List Call) (hok : ∀ r ∈ m.answers calls, r.fault = none) :
    ∃ m', boot large seed program = .ok m' ∧ m.Enlarged small large m' ∧
      List.Forall₂ (Run.Enlarged small large) (m.answers calls) (m'.answers calls) := by
  have hsmall := valid_of_boot hboot
  have hsame : (Simulation.enlargement small large).SameMode := by
    rintro _ _ ⟨rfl, rfl⟩
    exact hmode
  have hbuilt : (Simulation.enlargement small large).Machines
      ⟨.initial small, .ofSeed seed, none⟩ ⟨.initial large, .ofSeed seed, none⟩ :=
    ⟨Simulation.states_initial hwidth hheight hmemory hstack hsmall.programStart_le, rfl, rfl⟩
  have hload := Simulation.follows_load hbuilt program
  rw [← boot_of_valid hsmall, hboot] at hload
  obtain ⟨m', hboot', hm⟩ := hload.exists_ok
  refine ⟨m', (boot_of_valid hlarge).trans hboot', Simulation.enlarged_of_machines hm, ?_⟩
  have hruns := (List.forall₂_and_left _ _).2
    ⟨hok, Simulation.runs_answers hsame hm calls (.inl hok)⟩
  exact hruns.imp fun _ _ hrun => Simulation.enlarged_of_runs hrun.2 hrun.1

/-- Two registers go to the last two bytes of the smaller machine, and to the same addresses of
the larger one, which has more bytes behind them. -/
theorem answers_enlarged_storeRegisters : ∃ (small large : Settings) (m m' : Machine),
    small.memorySize = 0x208 ∧ large.memorySize = 0x300 ∧ large.stackSize = 7 ∧
    boot small 5 [0x60, 0x2A, 0xA2, 0x06, 0xF1, 0x55, 0xC0, 0x0F] = .ok m ∧
    boot large 5 [0x60, 0x2A, 0xA2, 0x06, 0xF1, 0x55, 0xC0, 0x0F] = .ok m' ∧
    List.Forall₂ (Run.Enlarged small large)
      (m.answers [.cycle ⟨0, 0⟩, .cycle ⟨3, 20⟩, .cycle ⟨0, 40⟩])
      (m'.answers [.cycle ⟨0, 0⟩, .cycle ⟨3, 20⟩, .cycle ⟨0, 40⟩]) ∧
    (m.serve [.cycle ⟨0, 0⟩, .cycle ⟨3, 20⟩, .cycle ⟨0, 40⟩]).state.memory.slice 0x206 2 =
      [0x2A, 0] := by
  let small : Settings := { Settings.smallest with memorySize := 0x208 }
  let large : Settings := { Settings.smallest with memorySize := 0x300, stackSize := 7 }
  have hsmall : Settings.Valid { Settings.smallest with memorySize := 0x208 } := rfl
  have hlarge : Settings.Valid { Settings.smallest with memorySize := 0x300, stackSize := 7 } := rfl
  have hwidth : large.width = small.width := rfl
  have hheight : large.height = small.height := rfl
  have hmode : large.legacyMode = small.legacyMode := rfl
  have hboot : boot small 5 [0x60, 0x2A, 0xA2, 0x06, 0xF1, 0x55, 0xC0, 0x0F] = .ok _ :=
    boot_eq_ok hsmall (by decide)
  obtain ⟨m', hboot', -, hruns⟩ := answers_enlarged hlarge hwidth hheight hmode (by decide)
    (by decide) hboot [.cycle ⟨0, 0⟩, .cycle ⟨3, 20⟩, .cycle ⟨0, 40⟩] (by decide +kernel)
  exact ⟨small, large, _, m', rfl, rfl, rfl, hboot, hboot', hruns, by decide +kernel⟩

end Machine

end Chip8
