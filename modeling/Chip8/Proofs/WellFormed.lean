import Chip8.Machine.Cycle
import Chip8.Proofs.Pixel

/-!
# Well-formed states

The buffers of a machine have the sizes that its settings ask for. `State.WellFormed` says so
of a state, together with what `Settings.validate` has checked and the bound on the depth of
the call stack. `WellFormed.initial` is the state before the first cycle.

Nothing that a machine does resizes a buffer, leaves the slots of the stack or changes the
settings : what comes after has the shape of what was before (`State.SameShape`), operation by
operation (`sameShape_execute`), and so with a cycle, whether it fails or not (`sameShape_cycle`),
and with a load. A state with the shape of a well-formed one is well-formed
(`WellFormed.of_sameShape`).

`State.holding` is a new state with a few bytes in memory that it is about to execute, and loading a
program into a new machine makes it one (`Machine.load_initial`).
-/

namespace Chip8

/-! ## What validation has checked -/

namespace Settings

/-- The constraints of the compact layout, as inequalities. -/
theorem validateCompact_eq_ok_iff (s : Settings) : s.validateCompact = .ok () ↔
    s.stackSize.toNat ≤ compactStackLimit ∧ s.pixels ≤ compactPixelLimit ∧
      screenWindow + s.screenBytes ≤ s.memorySize.toNat := by
  unfold validateCompact
  grind

/-- Settings are valid exactly when all their constraints hold. -/
theorem valid_iff (s : Settings) : s.Valid ↔
    s.width.toNat % 8 = 0 ∧ s.height.toNat % 8 = 0 ∧ widthMinimum ≤ s.width.toNat ∧
      heightMinimum ≤ s.height.toNat ∧ programStart ≤ s.memorySize.toNat ∧
      s.memorySize.toNat ≤ memoryLimit ∧ s.stackSize ≠ 0 ∧
      (s.compactLayout = true → s.validateCompact = .ok ()) := by
  unfold Valid validate
  grind

variable {s : Settings}

/-- A screen that is a multiple of eight high and not lower than the minimum has 16 rows. -/
theorem Valid.sixteen_le_height (h : s.Valid) : 16 ≤ s.height.toNat := by
  obtain ⟨-, h8, -, hmin, -⟩ := s.valid_iff.1 h
  unfold heightMinimum at hmin
  omega

theorem Valid.eight_le_width (h : s.Valid) : 8 ≤ s.width.toNat := by
  obtain ⟨-, -, hmin, -⟩ := s.valid_iff.1 h
  exact hmin

theorem Valid.programStart_le (h : s.Valid) : programStart ≤ s.memorySize.toNat := by
  obtain ⟨-, -, -, -, hmem, -⟩ := s.valid_iff.1 h
  exact hmem

theorem Valid.compact (h : s.Valid) (hc : s.compactLayout = true) :
    s.stackSize.toNat ≤ compactStackLimit ∧ s.pixels ≤ compactPixelLimit ∧
      screenWindow + s.screenBytes ≤ s.memorySize.toNat := by
  obtain ⟨-, -, -, -, -, -, -, hcompact⟩ := s.valid_iff.1 h
  exact s.validateCompact_eq_ok_iff.1 (hcompact hc)

/-- The smallest machine for a program of one instruction : room for one return address, and
one byte in each of sixteen rows. -/
def smallest : Settings :=
  { memorySize := 0x202, stackSize := 1, width := 8, height := 16, compactLayout := false }

theorem valid_smallest : smallest.Valid := rfl

end Settings

/-! ## The invariant -/

/-- Buffers of the sizes that valid settings ask for, and no more slots of the stack in use
than there are. -/
structure State.WellFormed (s : State) : Prop where
  valid : s.settings.Valid
  memory : s.memory.size = s.settings.memorySize.toNat
  slots : s.stack.slots.size = s.settings.stackSize.toNat
  depth : s.stack.depth ≤ s.stack.slots.size
  width : s.screen.width = s.settings.width
  height : s.screen.height = s.settings.height
  screen : s.screen.bytes.size = s.settings.screenBytes

namespace State.WellFormed

variable {s t : State}

theorem wellFormed_screen (hs : s.WellFormed) : s.screen.WellFormed := by
  obtain ⟨h8, -⟩ := s.settings.valid_iff.1 hs.valid
  have hw := hs.valid.eight_le_width
  have hh := hs.valid.sixteen_le_height
  refine ⟨by rw [hs.width]; exact h8, by rw [hs.width]; omega, by rw [hs.height]; omega, ?_⟩
  rw [hs.screen, hs.width, hs.height]
  rfl

theorem programStart_le (hs : s.WellFormed) : programStart ≤ s.memory.size := by
  rw [hs.memory]
  exact hs.valid.programStart_le

/-- The state before the first cycle is well-formed. -/
theorem initial {settings : Settings} (h : settings.Valid) : (initial settings).WellFormed where
  valid := h
  memory := by simp [State.initial]
  slots := by simp [State.initial, CallStack.empty]
  depth := Nat.zero_le _
  width := rfl
  height := rfl
  screen := by simp [State.initial, Screen.blank, Settings.screenBytes, Settings.pixels]

end State.WellFormed

/-! ## States of one shape -/

/-- `t` has the settings of `s` and buffers of the same sizes, and uses no more slots of the
stack than there are if `s` does not. -/
structure State.SameShape (s t : State) : Prop where
  settings : t.settings = s.settings
  memory : t.memory.size = s.memory.size
  slots : t.stack.slots.size = s.stack.slots.size
  depth : s.stack.depth ≤ s.stack.slots.size → t.stack.depth ≤ t.stack.slots.size
  width : t.screen.width = s.screen.width
  height : t.screen.height = s.screen.height
  screen : t.screen.bytes.size = s.screen.bytes.size

/-- A state with the shape of a well-formed one is well-formed. -/
theorem State.WellFormed.of_sameShape {s t : State} (hs : s.WellFormed) (h : s.SameShape t) :
    t.WellFormed where
  valid := by rw [h.settings]; exact hs.valid
  memory := by rw [h.memory, h.settings]; exact hs.memory
  slots := by rw [h.slots, h.settings]; exact hs.slots
  depth := h.depth hs.depth
  width := by rw [h.width, h.settings]; exact hs.width
  height := by rw [h.height, h.settings]; exact hs.height
  screen := by rw [h.screen, h.settings]; exact hs.screen

namespace State.SameShape

variable {s t u : State}

/-- A state with the same settings, stack and screen, and as much memory. -/
theorem of_eq (hset : t.settings = s.settings) (hmem : t.memory.size = s.memory.size)
    (hstack : t.stack = s.stack) (hscreen : t.screen = s.screen) : s.SameShape t where
  settings := hset
  memory := hmem
  slots := by rw [hstack]
  depth := by rw [hstack]; exact id
  width := by rw [hscreen]
  height := by rw [hscreen]
  screen := by rw [hscreen]

theorem refl (s : State) : s.SameShape s := of_eq rfl rfl rfl rfl

theorem trans (h : s.SameShape t) (h' : t.SameShape u) : s.SameShape u where
  settings := h'.settings.trans h.settings
  memory := h'.memory.trans h.memory
  slots := h'.slots.trans h.slots
  depth hs := h'.depth (h.depth hs)
  width := h'.width.trans h.width
  height := h'.height.trans h.height
  screen := h'.screen.trans h.screen

theorem withIndex (s : State) (index : UInt16) : s.SameShape { s with index := index } :=
  of_eq rfl rfl rfl rfl

/-- Writing to memory does not resize it. -/
theorem withMemory (s : State) (address : Nat) (bytes : List UInt8) (index : UInt16) :
    s.SameShape { s with memory := s.memory.write address bytes, index := index } :=
  of_eq rfl (Memory.size_write ..) rfl rfl

/-- Every screen with the same geometry will do. -/
theorem withScreen {screen : Screen} (hw : screen.width = s.screen.width)
    (hh : screen.height = s.screen.height) (hsize : screen.bytes.size = s.screen.bytes.size) :
    s.SameShape { s with screen := screen } :=
  ⟨rfl, rfl, rfl, id, hw, hh, hsize⟩

/-- Every stack with as many slots will do that uses no more than there are. -/
theorem withStack {stack : CallStack} (hslots : stack.slots.size = s.stack.slots.size)
    (hdepth : s.stack.depth ≤ s.stack.slots.size → stack.depth ≤ stack.slots.size)
    (pc : UInt16) : s.SameShape { s with stack := stack, pc := pc } :=
  ⟨rfl, rfl, hslots, hdepth, rfl, rfl, rfl⟩

theorem drawSprite {vx vy rows : UInt8} {hit : Bool}
    (h : s.drawSprite vx vy rows = .ok (t, hit)) : s.SameShape t := by
  unfold State.drawSprite at h
  dsimp only at h
  split_ifs at h
  cases h
  exact withScreen (Screen.width_draw ..) (Screen.height_draw ..) (Screen.size_draw ..)

end State.SameShape

/-- A sprite changes the screen alone. -/
theorem State.eq_of_drawSprite {s t : State} {vx vy rows : UInt8} {hit : Bool}
    (h : s.drawSprite vx vy rows = .ok (t, hit)) : t = { s with screen := t.screen } := by
  unfold drawSprite at h
  dsimp only at h
  split_ifs at h
  cases h
  rfl

/-! ## New states with bytes in memory -/

/-- A new state with bytes in memory, and the program counter on the first one. -/
def State.holding (settings : Settings) (pc : UInt16) (bytes : List UInt8) : State :=
  { initial settings with memory := (initial settings).memory.write pc.toNat bytes, pc := pc }

theorem State.size_memory_holding (settings : Settings) (pc : UInt16) (bytes : List UInt8) :
    (holding settings pc bytes).memory.size = settings.memorySize.toNat := by
  rw [holding, Memory.size_write, initial, Memory.size_write, Array.size_replicate]

theorem State.WellFormed.holding {settings : Settings} (h : settings.Valid) (pc : UInt16)
    (bytes : List UInt8) : (State.holding settings pc bytes).WellFormed :=
  (initial h).of_sameShape (.of_eq rfl (Memory.size_write ..) rfl rfl)

/-! ## What a machine does -/

namespace Machine

variable {m : Machine}

theorem new_eq_ok {settings : Settings} (h : settings.Valid) (random : Random) :
    Machine.new settings random = .ok ⟨.initial settings, random, none⟩ := by
  rw [Machine.new, State.new_eq_ok h]
  rfl

/-- A program that fits a new machine is in memory, and the program counter on it. -/
theorem load_initial {settings : Settings} {program : List UInt8} (random : Random)
    (hroom : program.length ≤ settings.memorySize.toNat - programStart) :
    load ⟨.initial settings, random, none⟩ program =
      .ok ⟨.holding settings 0x200 program, random, none⟩ := by
  have hsize : (State.initial settings).memory.size = settings.memorySize.toNat := by
    rw [State.initial, Memory.size_write, Array.size_replicate]
  rw [load, State.freeMemory, hsize, if_neg (Nat.not_lt.2 hroom)]
  rfl

/-- Valid settings build a machine, whatever its random numbers. -/
theorem exists_new_eq_ok {settings : Settings} (h : settings.Valid) (random : Random) :
    ∃ m, Machine.new settings random = .ok m ∧ m.state.WellFormed ∧
      m.state.settings = settings :=
  ⟨_, new_eq_ok h random, State.WellFormed.initial h, rfl⟩

/-- No operation changes the shape of the state. -/
theorem sameShape_execute {address : UInt16} {op : Operation} {effect : Effect}
    (h : m.execute address op = .ok effect) : m.state.SameShape effect.machine.state := by
  cases op <;> simp only [execute, State.skipIf_eq] at h
  case clear =>
    cases h
    exact .withScreen rfl rfl (Screen.size_clear _)
  case ret =>
    split at h
    · rename_i hpop
      cases h
      exact .withStack (CallStack.capacity_pop hpop)
        (fun hs => CallStack.depth_pop_le hs hpop) _
    · cases h
  case call target =>
    split at h
    · rename_i hpush
      cases h
      exact .withStack (CallStack.capacity_push hpush)
        (fun _ => CallStack.depth_push_le hpush) _
    · cases h
  case draw x y rows =>
    split at h
    · cases h
    · rename_i hdraw
      cases h
      exact (State.SameShape.drawSprite hdraw).trans (.of_eq rfl rfl rfl rfl)
  case storeDecimal | storeRegisters =>
    split at h
    · cases h
    · cases h
      exact .withMemory ..
  case loadRegisters x =>
    split at h
    · cases h
    · cases h
      exact .of_eq rfl rfl rfl rfl
  case raw word => cases h
  all_goals
    cases h
    exact .of_eq rfl rfl rfl rfl

/-- The machine after a fetch : the program counter is behind the word. -/
def fetched (m : Machine) : Machine := { m with state := { m.state with pc := m.state.pc + 2 } }

theorem sameShape_fetched (m : Machine) : m.state.SameShape m.fetched.state :=
  .of_eq rfl rfl rfl rfl

theorem sameShape_withKeyboard (m : Machine) (keyboard : UInt16) :
    m.state.SameShape (m.withKeyboard keyboard).state :=
  .of_eq rfl rfl rfl rfl

theorem sameShape_step (m : Machine) : m.state.SameShape m.step.machine.state := by
  unfold step
  split
  · exact .refl _
  · dsimp only
    split
    · exact sameShape_fetched m
    · rename_i hexecute
      exact (sameShape_fetched m).trans (sameShape_execute hexecute)

theorem sameShape_await (m : Machine) (wait : KeyWait) :
    m.state.SameShape (m.await wait).machine.state := by
  unfold await
  split
  · exact .refl _
  · exact .of_eq rfl rfl rfl rfl

theorem sameShape_advance (m : Machine) : m.state.SameShape m.advance.machine.state := by
  unfold advance
  split
  · exact sameShape_await m _
  · exact sameShape_step m

theorem sameShape_tick (m : Machine) (now : Nat) : m.state.SameShape (m.tick now).1.state :=
  .of_eq rfl rfl rfl rfl

/-- No cycle changes the shape of the state, also none that fails. -/
theorem sameShape_cycle (m : Machine) (keyboard : UInt16) (now : Nat) :
    m.state.SameShape (m.cycle keyboard now).machine.state := by
  have hadvance := (sameShape_withKeyboard m keyboard).trans (sameShape_advance _)
  unfold cycle
  dsimp only
  split
  · exact hadvance
  · exact hadvance.trans (sameShape_tick _ now)

theorem sameShape_load {program : List UInt8} {t : Machine} (h : m.load program = .ok t) :
    m.state.SameShape t.state := by
  unfold load at h
  split at h
  · cases h
  · cases h
    exact .of_eq rfl (Memory.size_write ..) rfl rfl

end Machine

end Chip8
