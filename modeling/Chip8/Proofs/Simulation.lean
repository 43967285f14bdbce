import Chip8.Proofs.Host
import Chip8.Proofs.Instruction
import Mathlib.Data.List.Forall2

/-!
# Machines that go alike

Two machines can have different memories, call stacks and settings, and still answer every call
in the same way. A `Simulation` is such a difference : how the memories, the stacks and the
settings may be related, so that what the first machine can read, write, push and pop, the
second can as well. A simulation that is `strict` asks for the converse too, so that the second
machine also fails where the first does.

There is one lemma for each layer, from the checks of an operation (`follows_checkBlock`) over
the operations (`follows_execute`) and cycles (`runs_cycle`) to all calls of a host
(`runs_answers`). An operation that reads the mode has to be executed in the same mode by both
machines, unless the mode makes no difference to it (`State.ModeMatters`).
-/

namespace Chip8

/-! ## Results -/

/-- A result that goes along with another one : a related value if that is a value. If that is
a failure and `strict` holds, it is the same failure. -/
inductive Follows {ε α β : Type} (strict : Prop) (R : α → β → Prop) :
    Except ε α → Except ε β → Prop
  | ok {a : α} {b : β} : R a b → Follows strict R (.ok a) (.ok b)
  | error {e : ε} {r : Except ε β} : (strict → r = .error e) → Follows strict R (.error e) r

namespace Follows

variable {ε α β : Type} {strict : Prop} {R : α → β → Prop}

theorem exists_ok {a : α} {r : Except ε β} (h : Follows strict R (.ok a) r) :
    ∃ b, r = .ok b ∧ R a b := by
  cases h with
  | ok hab => exact ⟨_, rfl, hab⟩

theorem eq_error {e : ε} {r : Except ε β} (h : Follows strict R (.error e) r) (hs : strict) :
    r = .error e := by
  cases h with
  | error herror => exact herror hs

/-- A check that the second result passes wherever the first one does. -/
theorem check {p q : Prop} [Decidable p] [Decidable q] {e : ε} {r : Except ε α}
    {r' : Except ε β} (hpass : q → p) (hfail : strict → p → q)
    (h : ¬p → Follows strict R r r') :
    Follows strict R (if p then .error e else r) (if q then .error e else r') := by
  by_cases hp : p
  · rw [if_pos hp]
    exact .error fun hs => if_pos (hfail hs hp)
  · rw [if_neg hp, if_neg fun hq => hp (hpass hq)]
    exact h hp

end Follows

/-! ## Functions of the state -/

/-- The machine with a function applied to its state. -/
def Machine.mapState (f : State → State) (m : Machine) : Machine := { m with state := f m.state }

/-- The callback with a function applied to the state that it shows, if it shows one. -/
def Callback.mapState (f : State → State) : Callback → Callback
  | .init seen => .init (f seen)
  | .screenUpdate seen => .screenUpdate (f seen)
  | callback => callback

/-- The run with a function applied to every state in it. -/
def Run.mapState (f : State → State) (r : Run) : Run :=
  { r with machine := r.machine.mapState f, callbacks := r.callbacks.map (.mapState f) }

theorem Callback.mapState_id : Callback.mapState id = id := by
  funext callback
  cases callback <;> rfl

theorem Run.mapState_id : Run.mapState id = id := by
  funext r
  simp only [mapState, Callback.mapState_id, List.map_id_fun, id_eq, Machine.mapState]

/-- Callbacks of one kind, which show related states if they show any. -/
inductive Callback.Alike (R : State → State → Prop) : Callback → Callback → Prop
  | init {s t : State} : R s t → Alike R (.init s) (.init t)
  | cycle : Alike R .cycle .cycle
  | clearScreen : Alike R .clearScreen .clearScreen
  | screenUpdate {s t : State} : R s t → Alike R (.screenUpdate s) (.screenUpdate t)
  | beep : Alike R .beep .beep

/-! ## The mode -/

/-- Whether an operation comes out differently in legacy mode. -/
def State.ModeMatters (s : State) : Operation → Prop
  | .shiftRight x y => s.register x ≠ s.register y
  | .shiftLeft x y => s.register x ≠ s.register y
  | .storeRegisters x => s.checkBlock (x.val + 1) = .ok ()
  | .loadRegisters x => s.checkBlock (x.val + 1) = .ok ()
  | _ => False

/-! ## Simulations -/

/-- How the memories, the stacks and the settings of two machines may be related, so that the
second one goes along with the first. -/
structure Simulation where
  /-- How the memories are related. -/
  memory : Memory → Memory → Prop
  /-- How the call stacks are related. -/
  stack : CallStack → CallStack → Prop
  /-- How the settings are related. -/
  settings : Settings → Settings → Prop
  /-- Whether the second machine fails where the first does. -/
  strict : Prop
  read_eq {m m' : Memory} (h : memory m m') (a : Nat) : m'.read a = m.read a
  size_le {m m' : Memory} (h : memory m m') : m.size ≤ m'.size
  size_eq {m m' : Memory} (hs : strict) (h : memory m m') : m'.size = m.size
  write {m m' : Memory} (h : memory m m') {a : Nat} {bs : List UInt8}
    (hle : a + bs.length ≤ m.size) : memory (m.write a bs) (m'.write a bs)
  push {s s' t : CallStack} (h : stack s s') {a : UInt16} (hpush : s.push? a = some t) :
    ∃ t', s'.push? a = some t' ∧ stack t t'
  push_full {s s' : CallStack} (hs : strict) (h : stack s s') {a : UInt16}
    (hpush : s.push? a = none) : s'.push? a = none
  pop {s s' t : CallStack} (h : stack s s') {a : UInt16} (hpop : s.pop? = some (a, t)) :
    ∃ t', s'.pop? = some (a, t') ∧ stack t t'
  pop_empty {s s' : CallStack} (hs : strict) (h : stack s s') (hpop : s.pop? = none) :
    s'.pop? = none

namespace Simulation

variable {R : Simulation}

/-- States with related memories, stacks and settings that are equal otherwise. -/
inductive States (R : Simulation) (s : State) : State → Prop
  | intro {memory : Memory} {stack : CallStack} {settings : Settings}
    (hmemory : R.memory s.memory memory) (hstack : R.stack s.stack stack)
    (hsettings : R.settings s.settings settings) :
    States R s { s with memory := memory, stack := stack, settings := settings }

/-- Machines in related states that are equal otherwise. -/
structure Machines (R : Simulation) (m m' : Machine) : Prop where
  state : R.States m.state m'.state
  random : m'.random = m.random
  clock : m'.clock = m.clock

/-- Of two related machines the second one is the first with another memory, another stack and
other settings. -/
theorem Machines.exists_eq {m m' : Machine} (hm : R.Machines m m') :
    ∃ memory stack settings, R.memory m.state.memory memory ∧ R.stack m.state.stack stack ∧
      R.settings m.state.settings settings ∧
      m' = { m with state :=
        { m.state with memory := memory, stack := stack, settings := settings } } := by
  obtain ⟨t, random, clock⟩ := m'
  obtain ⟨⟨hmemory, hstack, hsettings⟩, rfl, rfl⟩ := hm
  exact ⟨_, _, _, hmemory, hstack, hsettings, rfl⟩

/-- Effects that leave related machines behind and tell the platform alike. -/
structure Effects (R : Simulation) (e e' : Effect) : Prop where
  machine : R.Machines e.machine e'.machine
  callbacks : List.Forall₂ (Callback.Alike R.States) e.callbacks e'.callbacks

/-- Runs with the same fault and log that leave related machines behind and tell the platform
alike. -/
structure Runs (R : Simulation) (r r' : Run) : Prop where
  machine : R.Machines r.machine r'.machine
  callbacks : List.Forall₂ (Callback.Alike R.States) r.callbacks r'.callbacks
  log : r'.log = r.log
  fault : r'.fault = r.fault

/-! ## Checks -/

theorem slice_eq {m m' : Memory} (h : R.memory m m') (a n : Nat) : m'.slice a n = m.slice a n := by
  simp only [Memory.slice, R.read_eq h]

variable {s t : State} {m m' : Machine}

/-- What the second machine reads from behind `stop` lies in its memory if it does in that of
the first. -/
theorem end_of_lt (h : R.States s t) {stop : Nat} (hlt : t.memory.size < stop) :
    s.memory.size < stop := by
  cases h with
  | intro hmemory => exact Nat.lt_of_le_of_lt (R.size_le hmemory) hlt

theorem lt_end_of_strict (hs : R.strict) (h : R.States s t) {stop : Nat}
    (hlt : s.memory.size < stop) : t.memory.size < stop := by
  cases h with
  | intro hmemory => exact (R.size_eq hs hmemory).trans_lt hlt

theorem index_eq (h : R.States s t) : t.index = s.index := by
  cases h
  rfl

theorem register_eq (h : R.States s t) (x : Nibble) : t.register x = s.register x := by
  cases h
  rfl

theorem setRegister (h : R.States s t) (x : Nibble) (value : UInt8) :
    R.States (s.setRegister x value) (t.setRegister x value) := by
  cases h with
  | intro hmemory hstack hsettings => exact .intro hmemory hstack hsettings

theorem follows_checkBlock (h : R.States s t) (length : Nat) :
    Follows R.strict (fun _ _ => s.index.toNat + length ≤ s.memory.size)
      (s.checkBlock length) (t.checkBlock length) := by
  unfold State.checkBlock
  rw [index_eq h]
  refine .check id (fun _ => id) fun _ => .check (Or.imp_left (end_of_lt h))
    (fun hs => Or.imp_left (lt_end_of_strict hs h)) fun hend => .ok ?_
  omega

theorem follows_drawSprite (h : R.States s t) (x y rows : UInt8) :
    Follows R.strict (fun drawn drawn' => R.States drawn.1 drawn'.1 ∧ drawn'.2 = drawn.2)
      (s.drawSprite x y rows) (t.drawSprite x y rows) := by
  unfold State.drawSprite
  rw [index_eq h]
  refine .check id (fun _ => id) fun _ => .check (end_of_lt h)
    (fun hs => lt_end_of_strict hs h) fun _ => .ok ?_
  cases h with
  | intro hmemory hstack hsettings =>
    rw [slice_eq hmemory]
    exact ⟨.intro hmemory hstack hsettings, rfl⟩

theorem follows_fetch (h : R.States s t) :
    Follows R.strict (fun word word' => word' = word) (Machine.fetch s) (Machine.fetch t) := by
  unfold Machine.fetch
  cases h with
  | intro hmemory hstack hsettings =>
    refine .check (end_of_lt (.intro hmemory hstack hsettings))
      (fun hs => lt_end_of_strict hs (.intro hmemory hstack hsettings)) fun _ => .ok ?_
    simp only [R.read_eq hmemory]

/-! ## Operations -/

theorem follows_done (hm : R.Machines m m') (h : R.States s t) :
    Follows R.strict R.Effects (.ok { machine := { m with state := s } } : Except Fault Effect)
      (.ok { machine := { m' with state := t } }) :=
  .ok ⟨⟨h, hm.random, hm.clock⟩, .nil⟩

/-- The source of a shift is the same in both modes if both of its registers are. -/
theorem source_eq {legacy legacy' : Bool} {vx vy : UInt8}
    (h : legacy' = legacy ∨ ¬vx ≠ vy) :
    (if legacy' then vy else vx) = if legacy then vy else vx := by
  rcases h with rfl | hsame
  · rfl
  · rw [not_ne_iff.1 hsame, ite_self, ite_self]

theorem follows_draw (hm : R.Machines m m') (address : UInt16) (x y rows : Nibble) :
    Follows R.strict R.Effects (m.execute address (.draw x y rows))
      (m'.execute address (.draw x y rows)) := by
  have hdraw := follows_drawSprite hm.state (m.state.register x) (m.state.register y)
    (UInt8.ofNat rows.val)
  simp only [Machine.execute, register_eq hm.state]
  cases h : m.state.drawSprite (m.state.register x) (m.state.register y)
      (UInt8.ofNat rows.val) with
  | error fault =>
    rw [h] at hdraw
    exact .error fun hs => by rw [hdraw.eq_error hs]
  | ok drawn =>
    rw [h] at hdraw
    obtain ⟨⟨state', hit'⟩, hdrawn, hstate, hhit⟩ := hdraw.exists_ok
    obtain rfl : hit' = drawn.2 := hhit
    have hseen := setRegister hstate State.flagRegister (if drawn.2 then 1 else 0)
    rw [hdrawn]
    exact .ok ⟨⟨hseen, hm.random, hm.clock⟩, .cons (.screenUpdate hseen) .nil⟩

/-- What is done to the state after a check of the block at the index register. -/
theorem follows_block (hm : R.Machines m m') (length : Nat) (u u' : State)
    (h : m.state.checkBlock length = .ok () → m.state.index.toNat + length ≤ m.state.memory.size →
      R.States u u') :
    Follows R.strict R.Effects
      (match m.state.checkBlock length with
        | .error fault => .error fault
        | .ok () => .ok { machine := { m with state := u } })
      (match m'.state.checkBlock length with
        | .error fault => .error fault
        | .ok () => .ok { machine := { m' with state := u' } }) := by
  have hcheck := follows_checkBlock hm.state length
  cases hok : m.state.checkBlock length with
  | error fault =>
    rw [hok] at hcheck
    exact .error fun hs => by rw [hcheck.eq_error hs]
  | ok =>
    rw [hok] at hcheck
    obtain ⟨⟨⟩, hcheck', hle⟩ := hcheck.exists_ok
    rw [hcheck']
    exact .ok ⟨⟨h hok hle, hm.random, hm.clock⟩, .nil⟩

/-- Related machines execute an operation alike if they are in the same mode, or if the mode
makes no difference to the operation. They are the same machine but for the memory, the stack and
the settings, which `R` relates. -/
theorem follows_execute (hm : R.Machines m m') (address : UInt16) {op : Operation}
    (hmode : m'.state.legacy = m.state.legacy ∨ ¬m.state.ModeMatters op) :
    Follows R.strict R.Effects (m.execute address op) (m'.execute address op) := by
  have hblock := follows_block hm
  cases op
  case draw x y rows => exact follows_draw hm address x y rows
  case shiftRight x y | shiftLeft x y =>
    simp only [Machine.execute, register_eq hm.state, source_eq hmode]
    exact follows_done hm (setRegister (setRegister hm.state ..) ..)
  all_goals
    obtain ⟨memory, stack, settings, hmemory, hstack, hsettings, rfl⟩ := hm.exists_eq
    dsimp only at hmode hblock
    simp only [Machine.execute, State.skipIf_eq]
  case ret =>
    cases hpop : m.state.stack.pop? with
    | none => exact .error fun hs => by rw [R.pop_empty hs hstack hpop]
    | some top =>
      obtain ⟨stack', hpop', hstack'⟩ := R.pop hstack hpop
      rw [hpop']
      exact .ok ⟨⟨.intro hmemory hstack' hsettings, rfl, rfl⟩, .nil⟩
  case call =>
    cases hpush : m.state.stack.push? m.state.pc with
    | none => exact .error fun hs => by rw [R.push_full hs hstack hpush]
    | some stack =>
      obtain ⟨stack', hpush', hstack'⟩ := R.push hstack hpush
      rw [hpush']
      exact .ok ⟨⟨.intro hmemory hstack' hsettings, rfl, rfl⟩, .nil⟩
  case storeDecimal =>
    exact hblock 3 _ _ fun _ hle => .intro (R.write hmemory hle) hstack hsettings
  case storeRegisters x =>
    refine hblock (x.val + 1) _ _ fun hok hle => ?_
    have hlength : (m.state.registers.toList.take (x.val + 1)).length = x.val + 1 := by
      rw [List.length_take, Vector.length_toList]
      exact Nat.min_eq_left x.isLt
    rw [Machine.indexAfter, Machine.indexAfter, hmode.resolve_right (not_not_intro hok)]
    exact .intro (R.write hmemory (by rwa [hlength])) hstack hsettings
  case loadRegisters x =>
    refine hblock (x.val + 1) _ _ fun hok _ => ?_
    rw [Machine.indexAfter, Machine.indexAfter, hmode.resolve_right (not_not_intro hok)]
    simp only [Machine.loadedRegisters, R.read_eq hmemory]
    exact .intro hmemory hstack hsettings
  case raw => exact .error fun _ => rfl
  case clear => exact .ok ⟨⟨.intro hmemory hstack hsettings, rfl, rfl⟩, .cons .clearScreen .nil⟩
  all_goals exact .ok ⟨⟨.intro hmemory hstack hsettings, rfl, rfl⟩, .nil⟩

/-! ## Cycles -/

theorem machines_fetched (hm : R.Machines m m') : R.Machines m.fetched m'.fetched := by
  obtain ⟨memory, stack, settings, hmemory, hstack, hsettings, rfl⟩ := hm.exists_eq
  exact ⟨.intro hmemory hstack hsettings, rfl, rfl⟩

theorem machines_withKeyboard (hm : R.Machines m m') (keyboard : UInt16) :
    R.Machines (m.withKeyboard keyboard) (m'.withKeyboard keyboard) := by
  obtain ⟨memory, stack, settings, hmemory, hstack, hsettings, rfl⟩ := hm.exists_eq
  exact ⟨.intro hmemory hstack hsettings, rfl, rfl⟩

theorem alike_beeps (n : Nat) : List.Forall₂ (Callback.Alike R.States)
    (List.replicate n .beep) (List.replicate n .beep) := by
  refine List.forall₂_same.2 fun callback hmem => ?_
  rw [List.eq_of_mem_replicate hmem]
  exact .beep

theorem machines_tick (hm : R.Machines m m') (now : Nat) :
    R.Machines (m.tick now).1 (m'.tick now).1 ∧ (m'.tick now).2 = (m.tick now).2 := by
  obtain ⟨memory, stack, settings, hmemory, hstack, hsettings, rfl⟩ := hm.exists_eq
  exact ⟨⟨.intro hmemory hstack hsettings, rfl, rfl⟩, rfl⟩

theorem pc_eq (h : R.States s t) : t.pc = s.pc := by
  cases h
  rfl

theorem runs_step (hm : R.Machines m m')
    (hmode : ∀ word, Machine.fetch m.state = .ok word → m'.state.legacy = m.state.legacy ∨
      ¬m.state.ModeMatters (Operation.decode word))
    (hok : m.step.fault = none ∨ R.strict) : R.Runs m.step m'.step := by
  have hfetch := follows_fetch hm.state
  cases h : Machine.fetch m.state with
  | error fault =>
    rw [Machine.step_of_fetch_error h] at hok ⊢
    rw [h] at hfetch
    have hs : R.strict := hok.resolve_left (Option.some_ne_none fault)
    rw [Machine.step_of_fetch_error (hfetch.eq_error hs)]
    exact ⟨hm, .nil, rfl, rfl⟩
  | ok word =>
    rw [h] at hfetch
    obtain ⟨word', h', hword⟩ := hfetch.exists_ok
    subst hword
    have hexecute := follows_execute (machines_fetched hm) m.state.pc (hmode word' h)
    have hpc := pc_eq hm.state
    cases he : m.fetched.execute m.state.pc (Operation.decode word') with
    | error fault =>
      rw [Machine.step_of_execute_error h he] at hok ⊢
      rw [he] at hexecute
      have hs : R.strict := hok.resolve_left (Option.some_ne_none fault)
      rw [Machine.step_of_execute_error h' (by rw [hpc]; exact hexecute.eq_error hs), hpc]
      exact ⟨machines_fetched hm, .nil, rfl, rfl⟩
    | ok effect =>
      rw [he] at hexecute
      obtain ⟨effect', he', heffect⟩ := hexecute.exists_ok
      rw [Machine.step_of_execute_ok h he,
        Machine.step_of_execute_ok h' (by rw [hpc]; exact he'), hpc]
      exact ⟨heffect.machine, heffect.callbacks, rfl, rfl⟩

theorem runs_await (hm : R.Machines m m') (wait : KeyWait) :
    R.Runs (m.await wait) (m'.await wait) := by
  obtain ⟨memory, stack, settings, hmemory, hstack, hsettings, rfl⟩ := hm.exists_eq
  unfold Machine.await
  dsimp only
  cases Keypad.lowest? (m.state.keyboard &&& wait.mask) with
  | none => exact ⟨⟨.intro hmemory hstack hsettings, rfl, rfl⟩, .nil, rfl, rfl⟩
  | some key => exact ⟨⟨.intro hmemory hstack hsettings, rfl, rfl⟩, .nil, rfl, rfl⟩

theorem keyWait_eq (h : R.States s t) : t.keyWait = s.keyWait := by
  cases h
  rfl

theorem runs_advance (hm : R.Machines m m')
    (hmode : ∀ op, m.state.operation? = some op → m'.state.legacy = m.state.legacy ∨
      ¬m.state.ModeMatters op)
    (hok : m.advance.fault = none ∨ R.strict) : R.Runs m.advance m'.advance := by
  have hwait := keyWait_eq hm.state
  cases h : m.state.keyWait with
  | some wait =>
    rw [Machine.advance_of_waiting h, Machine.advance_of_waiting (hwait.trans h)]
    exact runs_await hm wait
  | none =>
    rw [Machine.advance_of_not_waiting h] at hok ⊢
    rw [Machine.advance_of_not_waiting (hwait.trans h)]
    exact runs_step hm (fun word hword =>
      hmode _ (State.operation?_eq_some_iff.2 ⟨h, word, hword, rfl⟩)) hok

/-- Related machines go through a cycle alike if they are in the same mode, or if the mode makes
no difference to the operation that is executed. -/
theorem runs_cycle (hm : R.Machines m m')
    (hmode : ∀ op, m.state.operation? = some op → m'.state.legacy = m.state.legacy ∨
      ¬m.state.ModeMatters op) {keyboard : UInt16} {now : Nat}
    (hok : (m.cycle keyboard now).fault = none ∨ R.strict) :
    R.Runs (m.cycle keyboard now) (m'.cycle keyboard now) := by
  rw [Machine.fault_cycle] at hok
  have hadvance := runs_advance (machines_withKeyboard hm keyboard) hmode hok
  cases h : (m.withKeyboard keyboard).advance.fault with
  | some fault =>
    rw [Machine.cycle_of_advance_fault h,
      Machine.cycle_of_advance_fault (hadvance.fault.trans h)]
    exact ⟨hadvance.machine, .cons .cycle hadvance.callbacks, hadvance.log, hadvance.fault⟩
  | none =>
    obtain ⟨hmachine, hbeeps⟩ := machines_tick hadvance.machine now
    rw [Machine.cycle_of_advance_ok h, Machine.cycle_of_advance_ok (hadvance.fault.trans h),
      hbeeps]
    exact ⟨hmachine, .cons .cycle (List.rel_append hadvance.callbacks (alike_beeps _)),
      hadvance.log, hadvance.fault⟩

/-! ## Calls -/

/-- Related settings are in the same mode. -/
def SameMode (R : Simulation) : Prop :=
  ∀ settings settings', R.settings settings settings' → settings'.legacyMode = settings.legacyMode

theorem legacy_eq (hmode : R.SameMode) (h : R.States s t) : t.legacy = s.legacy := by
  cases h with
  | intro _ _ hsettings => exact hmode _ _ hsettings

theorem runs_run (hmode : R.SameMode) (hm : R.Machines m m') (inputs : List Machine.Input)
    (hok : (m.run inputs).fault = none ∨ R.strict) : R.Runs (m.run inputs) (m'.run inputs) := by
  induction inputs generalizing m m' with
  | nil => exact ⟨hm, .nil, rfl, rfl⟩
  | cons i is ih =>
    have hlegacy (op : Operation) (_ : m.state.operation? = some op) :
        m'.state.legacy = m.state.legacy ∨ ¬m.state.ModeMatters op :=
      .inl (legacy_eq hmode hm.state)
    cases h : (m.cycle i.keyboard i.now).fault with
    | some fault =>
      rw [Machine.run_of_fault h] at hok ⊢
      have hcycle := runs_cycle hm hlegacy hok
      rw [Machine.run_of_fault (hcycle.fault.trans h)]
      exact hcycle
    | none =>
      have hcycle := runs_cycle hm hlegacy (.inl h)
      rw [Machine.run_of_ok h] at hok ⊢
      rw [Machine.run_of_ok (hcycle.fault.trans h)]
      have hrest := ih hcycle.machine hok
      refine ⟨hrest.machine, List.rel_append hcycle.callbacks hrest.callbacks, ?_, hrest.fault⟩
      dsimp only
      rw [hcycle.log, hrest.log]

theorem write_program {m m' : Memory} (h : R.memory m m') {program : List UInt8}
    (hroom : ¬m.size - programStart < program.length) :
    R.memory (m.write programStart program) (m'.write programStart program) := by
  cases program with
  | nil => exact h
  | cons b bs =>
    refine R.write h ?_
    rw [List.length_cons] at hroom ⊢
    omega

/-- A program that fits the memory of the first machine fits that of the second. -/
theorem follows_load (hm : R.Machines m m') (program : List UInt8) :
    Follows R.strict R.Machines (m.load program) (m'.load program) := by
  obtain ⟨memory, stack, settings, hmemory, hstack, hsettings, rfl⟩ := hm.exists_eq
  have hle := R.size_le hmemory
  unfold Machine.load State.freeMemory
  dsimp only at hle ⊢
  by_cases hroom : Array.size m.state.memory - programStart < program.length
  · rw [if_pos hroom]
    refine .error fun hs => ?_
    rw [R.size_eq hs hmemory, if_pos hroom]
  · rw [if_neg hroom, if_neg (by omega)]
    exact .ok ⟨.intro (write_program hmemory hroom) hstack hsettings, rfl, rfl⟩

/-- Related machines in the same mode answer a call alike. -/
theorem runs_answer (hmode : R.SameMode) (hm : R.Machines m m') (call : Call)
    (hok : (m.answer call).fault = none ∨ R.strict) : R.Runs (m.answer call) (m'.answer call) := by
  cases call with
  | load program =>
    have hload := follows_load hm program
    simp only [Machine.answer] at hok ⊢
    cases h : m.load program with
    | error fault =>
      rw [h] at hload
      simp only [h] at hok
      rw [hload.eq_error (hok.resolve_left (Option.some_ne_none fault))]
      exact ⟨hm, .nil, rfl, rfl⟩
    | ok loaded =>
      rw [h] at hload
      obtain ⟨loaded', hload', hloaded⟩ := hload.exists_ok
      rw [hload']
      exact ⟨hloaded, .nil, rfl, rfl⟩
  | cycle i => exact runs_cycle hm (fun _ _ => .inl (legacy_eq hmode hm.state)) hok
  | run inputs => exact runs_run hmode hm inputs hok
  | tick now =>
    obtain ⟨hticked, hbeeps⟩ := machines_tick hm now
    simp only [Machine.answer, hbeeps]
    exact ⟨hticked, alike_beeps _, rfl, rfl⟩
  | draw x y rows =>
    have hdraw := follows_drawSprite hm.state x y rows
    simp only [Machine.answer] at hok ⊢
    cases h : m.state.drawSprite x y rows with
    | error fault =>
      rw [h] at hdraw
      simp only [h] at hok
      rw [hdraw.eq_error (hok.resolve_left (Option.some_ne_none fault))]
      exact ⟨hm, .nil, rfl, rfl⟩
    | ok drawn =>
      rw [h] at hdraw
      obtain ⟨drawn', hdraw', hdrawn, -⟩ := hdraw.exists_ok
      rw [hdraw']
      exact ⟨⟨hdrawn, hm.random, hm.clock⟩, .nil, rfl, rfl⟩
  | press key | release key | clearScreen | reseed seed =>
    obtain ⟨memory, stack, settings, hmemory, hstack, hsettings, rfl⟩ := hm.exists_eq
    exact ⟨⟨.intro hmemory hstack hsettings, rfl, rfl⟩, .nil, rfl, rfl⟩

/-- Related machines in the same mode answer all calls alike. -/
theorem runs_answers (hmode : R.SameMode) (hm : R.Machines m m') (calls : List Call)
    (hok : (∀ r ∈ m.answers calls, r.fault = none) ∨ R.strict) :
    List.Forall₂ R.Runs (m.answers calls) (m'.answers calls) := by
  induction calls generalizing m m' with
  | nil => exact .nil
  | cons call calls ih =>
    have hcall := runs_answer hmode hm call (hok.imp_left fun h => h _ List.mem_cons_self)
    refine .cons hcall (ih hcall.machine (hok.imp_left fun h r hr => ?_))
    exact h r (List.mem_cons_of_mem _ hr)

theorem machines_serve {calls : List Call} (hm : R.Machines m m')
    (h : List.Forall₂ R.Runs (m.answers calls) (m'.answers calls)) :
    R.Machines (m.serve calls) (m'.serve calls) := by
  induction calls generalizing m m' with
  | nil => exact hm
  | cons call calls ih =>
    cases h with
    | cons hcall hrest => exact ih hcall.machine hrest

/-! ## Equal up to a function -/

variable {f g : State → State} {r r' : Run}

theorem mapState_machine_eq (hfg : ∀ s t, R.States s t → g t = f s) (hm : R.Machines m m') :
    m'.mapState g = m.mapState f := by
  unfold Machine.mapState
  rw [hfg _ _ hm.state, hm.random, hm.clock]

theorem mapState_callback_eq (hfg : ∀ s t, R.States s t → g t = f s) {c c' : Callback}
    (h : Callback.Alike R.States c c') : c'.mapState g = c.mapState f := by
  cases h with
  | init hstates => exact congrArg Callback.init (hfg _ _ hstates)
  | screenUpdate hstates => exact congrArg Callback.screenUpdate (hfg _ _ hstates)
  | cycle | clearScreen | beep => rfl

theorem map_eq_of_forall₂ {α β γ : Type} {S : α → β → Prop} {p : α → γ} {q : β → γ}
    {as : List α} {bs : List β} (hpq : ∀ a b, S a b → q b = p a) (h : List.Forall₂ S as bs) :
    bs.map q = as.map p := by
  have hlift : Relator.LiftFun S (· = ·) p q := fun a b hab => (hpq a b hab).symm
  have hmap := List.rel_map hlift h
  rw [List.forall₂_eq_eq_eq] at hmap
  exact hmap.symm

/-- If functions make related states equal, they make related runs equal. -/
theorem mapState_run_eq (hfg : ∀ s t, R.States s t → g t = f s) (h : R.Runs r r') :
    r'.mapState g = r.mapState f := by
  have hcallbacks : r'.callbacks.map (Callback.mapState g) =
      r.callbacks.map (Callback.mapState f) :=
    map_eq_of_forall₂ (fun _ _ => mapState_callback_eq hfg) h.callbacks
  unfold Run.mapState
  rw [mapState_machine_eq hfg h.machine, h.log, h.fault, hcallbacks]

theorem mapState_runs_eq (hfg : ∀ s t, R.States s t → g t = f s) {rs rs' : List Run}
    (h : List.Forall₂ R.Runs rs rs') : rs'.map (Run.mapState g) = rs.map (Run.mapState f) :=
  map_eq_of_forall₂ (fun _ _ hrun => mapState_run_eq hfg hrun) h

end Simulation

end Chip8
