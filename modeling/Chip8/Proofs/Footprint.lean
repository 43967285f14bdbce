import Chip8.Proofs.Instruction

/-!
# What an instruction changes

Every operation has a footprint : the parts of a machine that it may change
(`Operation.footprint`). Whatever lies outside it, an operation leaves as it is
(`Machine.within_execute`), and no operation changes the keyboard, the period of the timers, the
settings or the size of a buffer. The program counter is a case of its own : it goes to the next
word, or over that word if the operation skips it, unless the operation jumps
(`Machine.pc_execute`).

`Machine.cycle_within_footprint` says this of a cycle, which adds nothing of its own but the keys
that are down and the ticks of the timers.
-/

namespace Chip8

/-! ## Footprints -/

/-- The parts of a machine that an operation may change. -/
structure Footprint where
  /-- The bytes of memory. -/
  memory : Bool := false
  /-- The pixels. -/
  screen : Bool := false
  /-- The slots of the call stack and how many are in use. -/
  stack : Bool := false
  /-- The index register. -/
  index : Bool := false
  /-- The delay timer. -/
  delay : Bool := false
  /-- The sound timer. -/
  sound : Bool := false
  /-- The wait for a key. -/
  keyWait : Bool := false
  /-- The source of random bytes. -/
  random : Bool := false
  /-- The registers. -/
  registers : Nibble → Bool := fun _ => false

namespace Operation

/-- What an operation may change. Only legacy mode moves the index register behind a block of
registers. -/
def footprint (legacy : Bool) : Operation → Footprint
  | clear => { screen := true }
  | ret | call _ => { stack := true }
  | setByte x _ | addByte x _ | copy x _ | bitOr x _ | bitAnd x _ | bitXor x _ | readDelay x =>
    { registers := fun k => k = x }
  | add x _ | sub x _ | shiftRight x _ | subFrom x _ | shiftLeft x _ =>
    { registers := fun k => k = x ∨ k = State.flagRegister }
  | setIndex _ | addIndex _ | glyph _ => { index := true }
  | random x _ => { random := true, registers := fun k => k = x }
  | draw _ _ _ => { screen := true, registers := fun k => k = State.flagRegister }
  | awaitKey _ => { keyWait := true }
  | setDelay _ => { delay := true }
  | setSound _ => { sound := true }
  | storeDecimal _ => { memory := true }
  | storeRegisters _ => { memory := true, index := legacy }
  | loadRegisters x => { index := legacy, registers := fun k => k ≤ x }
  | sys _ | jump _ | jumpPlus _ | skipIfByte _ _ | skipUnlessByte _ _ | skipIfSame _ _
  | skipUnlessSame _ _ | skipIfPressed _ | skipUnlessPressed _ | raw _ => {}

/-- Whether an operation sets the program counter. -/
def jumps : Operation → Bool
  | ret | call _ | jump _ | jumpPlus _ => true
  | _ => false

/-- Whether an operation skips the next word. -/
def skips (s : State) : Operation → Bool
  | skipIfByte x byte => s.register x == byte
  | skipUnlessByte x byte => s.register x != byte
  | skipIfSame x y => s.register x == s.register y
  | skipUnlessSame x y => s.register x != s.register y
  | skipIfPressed x => s.isKeyPressed (s.register x)
  | skipUnlessPressed x => !s.isKeyPressed (s.register x)
  | _ => false

end Operation

namespace Machine

/-- `m'` is `m` outside a footprint, the program counter aside. The fields hold by themselves of
what `m'` takes over from `m`. -/
structure Within (f : Footprint) (m m' : Machine) : Prop where
  memory : f.memory = false → m'.state.memory = m.state.memory := by exact fun _ => rfl
  screen : f.screen = false → m'.state.screen = m.state.screen := by exact fun _ => rfl
  stack : f.stack = false → m'.state.stack = m.state.stack := by exact fun _ => rfl
  index : f.index = false → m'.state.index = m.state.index := by exact fun _ => rfl
  delay : f.delay = false → m'.state.delay = m.state.delay := by exact fun _ => rfl
  sound : f.sound = false → m'.state.sound = m.state.sound := by exact fun _ => rfl
  keyWait : f.keyWait = false → m'.state.keyWait = m.state.keyWait := by exact fun _ => rfl
  random : f.random = false → m'.random = m.random := by exact fun _ => rfl
  registers : ∀ k, f.registers k = false → m'.state.register k = m.state.register k
  keyboard : m'.state.keyboard = m.state.keyboard := by rfl
  timerInterval : m'.state.timerInterval = m.state.timerInterval := by rfl
  shape : m.state.SameShape m'.state
  clock : m'.clock = m.clock := by rfl

variable {m : Machine} {address : UInt16} {op : Operation} {effect : Effect}

/-- A sprite that is drawn changes the screen and the flag. -/
theorem exists_machine_draw {x y rows : Nibble}
    (h : m.execute address (.draw x y rows) = .ok effect) : ∃ screen hit,
    effect.machine = { m with state := { m.state with screen := screen }.setFlag hit } := by
  simp only [execute] at h
  split at h
  · cases h
  · rename_i drawn hit hdraw
    cases h
    rw [State.eq_of_drawSprite hdraw]
    exact ⟨_, hit, rfl⟩

theorem register_execute (h : m.execute address op = .ok effect) {k : Nibble}
    (hk : (op.footprint m.state.legacy).registers k = false) :
    effect.machine.state.register k = m.state.register k := by
  cases op
  case draw =>
    obtain ⟨screen, hit, hdrawn⟩ := exists_machine_draw h
    rw [hdrawn]
    exact State.register_setRegister_of_ne _ (of_decide_eq_false hk) _
  all_goals simp only [execute, State.skipIf_eq] at h
  case setByte | addByte | copy | bitOr | bitAnd | bitXor | readDelay | random =>
    cases h
    exact State.register_setRegister_of_ne _ (of_decide_eq_false hk) _
  case add | sub | shiftRight | subFrom | shiftLeft =>
    cases h
    obtain ⟨hx, hflag⟩ := not_or.1 (of_decide_eq_false hk)
    exact State.register_setFlag_setRegister _ hx hflag _ _
  case loadRegisters x =>
    split at h <;> cases h
    have hout : ¬k.val < x.val + 1 := fun hlt =>
      of_decide_eq_false hk (Fin.le_def.2 (Nat.le_of_lt_succ hlt))
    exact (Vector.getElem_ofFn _).trans (if_neg hout)
  case ret | call | storeDecimal | storeRegisters =>
    split at h <;> cases h
    rfl
  case raw => cases h
  all_goals
    cases h
    rfl

theorem indexAfter_of_modern (s : State) (count : Nat) (h : s.legacy = false) :
    indexAfter s count = s.index :=
  if_neg (by rw [h]; decide)

/-- An operation changes nothing outside its footprint but the program counter. Of a part that is in
the footprint there is nothing to show. -/
theorem within_execute (h : m.execute address op = .ok effect) :
    Within (op.footprint m.state.legacy) m effect.machine := by
  have hregisters : ∀ k, (op.footprint m.state.legacy).registers k = false → _ :=
    fun k hk => register_execute h hk
  have hshape := sameShape_execute h
  have htouched : ∀ {p : Prop}, true = false → p := fun h => absurd h.symm Bool.false_ne_true
  cases op
  case draw =>
    obtain ⟨screen, hit, hdrawn⟩ := exists_machine_draw h
    rw [hdrawn] at hshape hregisters ⊢
    exact { registers := hregisters, shape := hshape, screen := htouched }
  all_goals simp only [execute, State.skipIf_eq] at h
  case ret | call =>
    split at h <;> cases h
    exact { registers := hregisters, shape := hshape, stack := htouched }
  case storeDecimal =>
    split at h <;> cases h
    exact { registers := hregisters, shape := hshape, memory := htouched }
  case storeRegisters x =>
    split at h <;> cases h
    have hindex := indexAfter_of_modern m.state (x.val + 1)
    exact { registers := hregisters, shape := hshape, memory := htouched, index := hindex }
  case loadRegisters =>
    split at h <;> cases h
    exact { registers := hregisters, shape := hshape, index := indexAfter_of_modern m.state _ }
  case raw => cases h
  all_goals cases h
  case clear => exact { registers := hregisters, shape := hshape, screen := htouched }
  case random => exact { registers := hregisters, shape := hshape, random := htouched }
  case awaitKey => exact { registers := hregisters, shape := hshape, keyWait := htouched }
  case setDelay => exact { registers := hregisters, shape := hshape, delay := htouched }
  case setSound => exact { registers := hregisters, shape := hshape, sound := htouched }
  case setIndex | addIndex | glyph =>
    exact { registers := hregisters, shape := hshape, index := htouched }
  all_goals exact { registers := hregisters, shape := hshape }

theorem pc_skip (pc : UInt16) (condition : Bool) :
    (if condition then pc + 2 else pc) = pc + if condition then 2 else 0 := by
  cases condition
  · exact (UInt16.add_zero pc).symm
  · rfl

/-- An operation that does not jump leaves the program counter behind its word, or skips a word. -/
theorem pc_execute (h : m.execute address op = .ok effect) (hjumps : op.jumps = false) :
    effect.machine.state.pc = m.state.pc + if op.skips m.state then 2 else 0 := by
  cases op
  case draw =>
    obtain ⟨screen, hit, hdrawn⟩ := exists_machine_draw h
    rw [hdrawn]
    exact (UInt16.add_zero _).symm
  all_goals simp only [execute, State.skipIf_eq] at h
  case ret | call | jump | jumpPlus => cases hjumps
  case skipIfByte | skipUnlessByte | skipIfSame | skipUnlessSame | skipIfPressed
      | skipUnlessPressed =>
    cases h
    exact pc_skip _ _
  case storeDecimal | storeRegisters | loadRegisters =>
    split at h <;> cases h
    exact (UInt16.add_zero _).symm
  case raw => cases h
  all_goals
    cases h
    exact (UInt16.add_zero _).symm

/-! ## Cycles -/

theorem skips_fetched (m : Machine) (op : Operation) :
    op.skips m.fetched.state = op.skips m.state := by
  cases op <;> rfl

theorem pc_fetched (pc : UInt16) (condition : Bool) :
    (pc + 2 + if condition then 2 else 0) = pc + if condition then 4 else 2 := by
  cases condition
  · exact UInt16.add_zero _
  · exact UInt16.add_assoc pc 2 2

variable {keyboard : UInt16} {now : Nat}

/-- A cycle changes nothing outside the footprint of its operation but the keys that are down, which
it is given, the program counter, and what the timers lose to its ticks. The program counter goes to
the next word, or over it if the operation skips it, unless the operation jumps. -/
theorem cycle_within_footprint (hop : m.state.operation? = some op)
    (hok : (m.cycle keyboard now).fault = none) :
    let polled := m.withKeyboard keyboard
    let executed := polled.advance.machine
    let next := (m.cycle keyboard now).machine
    Within (op.footprint m.state.legacy) polled executed ∧
      (op.jumps = false →
        executed.state.pc = m.state.pc + if op.skips polled.state then 4 else 2) ∧
      next = (executed.tick now).1 ∧
      next = { executed with
        state := { executed.state with delay := next.state.delay, sound := next.state.sound }
        clock := next.clock } := by
  intro polled executed next
  have hpolled : polled.state.operation? = some op := hop
  cases hexecute : polled.fetched.execute polled.state.pc op with
  | error fault =>
    have hcycle : m.cycle keyboard now = _ := cycle_of_operation_error hop hexecute
    rw [hcycle] at hok
    cases hok
  | ok effect =>
    have hexecuted : executed = effect.machine :=
      congrArg Run.machine (advance_of_operation_ok hpolled hexecute)
    have hcycle : m.cycle keyboard now = _ := cycle_of_operation_ok hop hexecute
    have hnext : next = (effect.machine.tick now).1 := congrArg Run.machine hcycle
    have hwithin := within_execute hexecute
    rw [hexecuted]
    have hshape := (sameShape_fetched polled).trans hwithin.shape
    refine ⟨{ hwithin with shape := hshape }, fun hjumps => ?_, hnext, ?_⟩
    · rw [pc_execute hexecute hjumps, skips_fetched]
      exact pc_fetched _ _
    · rw [hnext]
      rfl

/-- The first two registers are filled from memory in legacy mode, while the delay timer runs. -/
theorem cycle_within_footprint_load : ∃ m : Machine,
    m.state.operation? = some (.loadRegisters 1) ∧ m.state.legacy = true ∧
    (m.cycle 5 100).fault = none ∧
    let polled := m.withKeyboard 5
    let executed := polled.advance.machine
    let next := (m.cycle 5 100).machine
    executed.state.register 1 ≠ polled.state.register 1 ∧
      executed.state.index ≠ polled.state.index ∧
      executed.state.register 2 = polled.state.register 2 ∧
      executed.state.memory = polled.state.memory ∧ executed.state.delay = polled.state.delay ∧
      executed.state.pc = m.state.pc + 2 ∧ next = (executed.tick 100).1 ∧
      next.state.delay ≠ m.state.delay := by
  let built : State := .holding { Settings.smallest with legacyMode := true } 0x200 [0xF1, 0x65]
  let m : Machine :=
    ⟨{ built with index := 0x200, delay := 8, timerInterval := 60 }, .ofSeed 0, some 0⟩
  have hop : m.state.operation? = some (.loadRegisters 1) := by decide +kernel
  have hok : (m.cycle 5 100).fault = none := by decide +kernel
  obtain ⟨hfilled, hmoved, hticked⟩ :
      (m.withKeyboard 5).advance.machine.state.register 1 ≠
        (m.withKeyboard 5).state.register 1 ∧
      (m.withKeyboard 5).advance.machine.state.index ≠ (m.withKeyboard 5).state.index ∧
      (m.cycle 5 100).machine.state.delay ≠ m.state.delay := by
    decide +kernel
  obtain ⟨hwithin, hpc, hnext, -⟩ := cycle_within_footprint hop hok
  exact ⟨m, hop, rfl, hok, hfilled, hmoved, hwithin.registers 2 rfl, hwithin.memory rfl,
    hwithin.delay rfl, hpc rfl, hnext, hticked⟩

end Machine

end Chip8
