import Chip8.Proofs.Simulation

/-!
# What the switches of the settings change

Of the two switches in its settings, a machine never looks at the layout while it runs, and at
the mode in four of its operations alone. `answers_of_switches` says so of pairs of runs.

* Machines that differ in the layout alone answer all calls with the same states, settings
  aside, and the same callbacks, logs and faults (`answers_mapSettings`).
* Machines that differ in the mode alone do so up to the first cycle that executes an operation
  to which the mode makes a difference (`answers_of_neutral`). In that cycle they part
  (`Operation.Parted`) : neither of them fails, and they differ in the two registers that a
  shift writes, or in the index register behind a register block.
-/

namespace Chip8

/-! ## Other settings -/

/-- Settings with the layout switched. -/
def Settings.inLayout (compact : Bool) (s : Settings) : Settings :=
  { s with compactLayout := compact }

/-- Settings with the mode switched. -/
def Settings.inMode (legacy : Bool) (s : Settings) : Settings := { s with legacyMode := legacy }

/-- The state with a function applied to its settings. -/
def State.mapSettings (g : Settings → Settings) (s : State) : State :=
  { s with settings := g s.settings }

/-- The state in the given mode. -/
def State.inMode (legacy : Bool) : State → State := mapSettings (.inMode legacy)

/-- The state in the given layout. -/
def State.inLayout (compact : Bool) : State → State := mapSettings (.inLayout compact)

/-- The machine in the given mode. -/
def Machine.inMode (legacy : Bool) : Machine → Machine := mapState (.inMode legacy)

/-- The machine in the given layout. -/
def Machine.inLayout (compact : Bool) : Machine → Machine := mapState (.inLayout compact)

theorem State.initial_inLayout (settings : Settings) (compact : Bool) :
    initial (settings.inLayout compact) = (initial settings).inLayout compact := by
  simp only [initial, inLayout, mapSettings, Settings.inLayout]

/-- Everything but the settings is the same, and the settings differ by a function. -/
def Simulation.ofSettings (g : Settings → Settings) : Simulation where
  memory m m' := m' = m
  stack s t := t = s
  settings settings settings' := settings' = g settings
  strict := True
  read_eq h a := by rw [h]
  size_le h := Nat.le_of_eq (congrArg Array.size h.symm)
  size_eq _ h := by rw [h]
  write h _ _ _ := by rw [h]
  push h _ hpush := ⟨_, by rw [h]; exact hpush, rfl⟩
  push_full _ h _ hpush := by rw [h]; exact hpush
  pop h _ hpop := ⟨_, by rw [h]; exact hpop, rfl⟩
  pop_empty _ h hpop := by rw [h]; exact hpop

namespace Simulation

variable {g : Settings → Settings}

theorem machines_mapSettings (m : Machine) :
    (ofSettings g).Machines m (m.mapState (.mapSettings g)) :=
  ⟨.intro rfl rfl rfl, rfl, rfl⟩

theorem eq_mapSettings_of_states {s t : State} (h : (ofSettings g).States s t) :
    t = s.mapSettings g := by
  cases h with
  | intro hmemory hstack hsettings => rw [hmemory, hstack, hsettings]; rfl

theorem eq_mapState_of_machines {m m' : Machine} (h : (ofSettings g).Machines m m') :
    m' = m.mapState (.mapSettings g) :=
  mapState_machine_eq (g := id) (fun _ _ => eq_mapSettings_of_states) h

theorem answers_eq_of_forall₂ {rs rs' : List Run} (h : List.Forall₂ (ofSettings g).Runs rs rs') :
    rs' = rs.map (Run.mapState (.mapSettings g)) := by
  have hmap := mapState_runs_eq (g := id) (fun _ _ => eq_mapSettings_of_states) h
  rwa [Run.mapState_id, List.map_id] at hmap

end Simulation

namespace Machine

/-- The mode is the only one of the settings that answers to calls depend on. -/
theorem answers_mapSettings {g : Settings → Settings}
    (hg : ∀ settings, (g settings).legacyMode = settings.legacyMode) (m : Machine)
    (calls : List Call) :
    (m.mapState (.mapSettings g)).answers calls =
      (m.answers calls).map (Run.mapState (.mapSettings g)) := by
  have hmode : (Simulation.ofSettings g).SameMode := by
    rintro settings _ rfl
    exact hg settings
  exact Simulation.answers_eq_of_forall₂
    (Simulation.runs_answers hmode (Simulation.machines_mapSettings m) calls (.inr trivial))

/-! ## Cycles that are the same in both modes -/

/-- The cycles execute no operation to which the mode makes a difference. -/
def Neutral : Machine → List Input → Prop
  | _, [] => True
  | m, i :: is => (∀ op, m.state.operation? = some op → ¬m.state.ModeMatters op) ∧
      (m.cycle i.keyboard i.now).machine.Neutral is

/-- Cycles that are neutral on the first of two related machines run alike on both : the second one
is in the same state up to there. -/
theorem runs_of_neutral {R : Simulation} (hs : R.strict) {m m' : Machine} {inputs : List Input}
    (hneutral : m.Neutral inputs) (hm : R.Machines m m') :
    List.Forall₂ R.Runs (m.answers (inputs.map .cycle)) (m'.answers (inputs.map .cycle)) := by
  induction inputs generalizing m m' with
  | nil => exact .nil
  | cons i is ih =>
    obtain ⟨hmode, hrest⟩ := hneutral
    have hcycle : R.Runs (m.cycle i.keyboard i.now) (m'.cycle i.keyboard i.now) :=
      Simulation.runs_cycle hm (fun op hop => .inr (hmode op hop)) (.inr hs)
    exact .cons hcycle (ih hrest hcycle.machine)

/-- Such cycles come to the same in other settings, whatever the mode there, and leave the same
machine behind. -/
theorem answers_of_neutral (g : Settings → Settings) {m : Machine} {inputs : List Input}
    (hneutral : m.Neutral inputs) :
    (m.mapState (.mapSettings g)).answers (inputs.map .cycle) =
        (m.answers (inputs.map .cycle)).map (Run.mapState (.mapSettings g)) ∧
      (m.mapState (.mapSettings g)).serve (inputs.map .cycle) =
        (m.serve (inputs.map .cycle)).mapState (.mapSettings g) := by
  have hm := Simulation.machines_mapSettings (g := g) m
  have hruns := runs_of_neutral trivial hneutral hm
  exact ⟨Simulation.answers_eq_of_forall₂ hruns,
    Simulation.eq_mapState_of_machines (Simulation.machines_serve hm hruns)⟩

end Machine

/-! ## The cycle in which the modes part -/

/-- How an operation parts the states after it, in legacy mode and not. A shift does so in the
register that it shifts and in the flag, a register block in the index register : legacy mode
moves it behind the block. -/
def Operation.Parted (before legacy modern : State) : Operation → Prop
  | .shiftRight x _ | .shiftLeft x _ =>
    (∀ k, k ≠ x → k ≠ State.flagRegister → modern.register k = legacy.register k) ∧
      modern = { legacy.inMode false with registers := modern.registers }
  | .storeRegisters x | .loadRegisters x =>
    legacy.index.toNat = before.index.toNat + x.val + 1 ∧
      modern = { legacy.inMode false with index := before.index }
  | _ => False

/-- A block of registers that is not refused ends before the last address. -/
theorem State.toNat_index_add (s : State) {count : Nat} (h : s.checkBlock count = .ok ()) :
    (s.index + UInt16.ofNat count).toNat = s.index.toNat + count := by
  obtain ⟨-, -, hend⟩ := checkBlock_eq_ok_iff.1 h
  rw [UInt16.toNat_add, UInt16.toNat_ofNat']
  omega

/-- Parted states have the same timers, and stay parted when these are set. -/
theorem Operation.Parted.timers {before legacy modern : State} {op : Operation}
    (h : op.Parted before legacy modern) :
    modern.delay = legacy.delay ∧ modern.sound = legacy.sound ∧
      modern.timerInterval = legacy.timerInterval ∧
      ∀ delay sound, op.Parted before { legacy with delay := delay, sound := sound }
        { modern with delay := delay, sound := sound } := by
  cases op
  case shiftRight | shiftLeft | storeRegisters | loadRegisters =>
    obtain ⟨hsame, hmodern⟩ := h
    rw [hmodern]
    exact ⟨rfl, rfl, rfl, fun _ _ => ⟨hsame, rfl⟩⟩
  all_goals exact h.elim

namespace Machine

variable {m : Machine} {op : Operation}

/-- Operations to which the mode makes a difference do not fail in either mode, and part the
states. -/
theorem execute_of_modeMatters (address : UInt16) (h : m.state.ModeMatters op) :
    ∃ legacy modern : State,
      (m.inMode true).execute address op = .ok { machine := { m with state := legacy } } ∧
      (m.inMode false).execute address op = .ok { machine := { m with state := modern } } ∧
      op.Parted m.state legacy modern := by
  cases op
  case shiftRight x y | shiftLeft x y =>
    refine ⟨_, _, rfl, rfl, fun k hx hflag => ?_, rfl⟩
    rw [State.register_setFlag_setRegister _ hx hflag,
      State.register_setFlag_setRegister _ hx hflag]
    rfl
  case storeRegisters x | loadRegisters x =>
    have hcheck : m.state.checkBlock (x.val + 1) = .ok () := h
    have hlegacy : (m.inMode true).state.checkBlock (x.val + 1) = .ok () := hcheck
    have hmodern : (m.inMode false).state.checkBlock (x.val + 1) = .ok () := hcheck
    have hbehind : indexAfter (m.inMode true).state (x.val + 1) =
        m.state.index + UInt16.ofNat (x.val + 1) := rfl
    have hindex : indexAfter (m.inMode false).state (x.val + 1) = m.state.index := rfl
    simp only [execute, hlegacy, hmodern, hbehind, hindex]
    refine ⟨_, _, rfl, rfl, ?_, ?_⟩
    · exact (m.state.toNat_index_add hcheck).trans (Nat.add_assoc ..).symm
    · dsimp only [inMode, mapState, State.inMode, State.mapSettings, Settings.inMode,
        loadedRegisters, State.register]
  all_goals exact h.elim

/-- Parted machines count the same periods. -/
theorem tick_of_parted {before legacy modern : State} (h : op.Parted before legacy modern)
    (random : Random) (clock : Option Nat) (now : Nat) :
    let l := tick ⟨legacy, random, clock⟩ now
    let d := tick ⟨modern, random, clock⟩ now
    d.2 = l.2 ∧ d.1.random = l.1.random ∧ d.1.clock = l.1.clock ∧
      op.Parted before l.1.state d.1.state := by
  obtain ⟨hdelay, hsound, hinterval, hparted⟩ := h.timers
  simp only [tick, hdelay, hsound, hinterval, true_and]
  simpa only [hinterval] using hparted _ _

/-- The cycle in which the modes part. -/
theorem cycle_of_modeMatters (hop : m.state.operation? = some op) (h : m.state.ModeMatters op)
    (i : Input) :
    let l := (m.inMode true).cycle i.keyboard i.now
    let d := (m.inMode false).cycle i.keyboard i.now
    l.fault = none ∧ d.fault = none ∧ d.callbacks = l.callbacks ∧ d.log = l.log ∧
      d.machine.random = l.machine.random ∧ d.machine.clock = l.machine.clock ∧
      op.Parted m.state l.machine.state d.machine.state := by
  have hpolled : (m.withKeyboard i.keyboard).fetched.state.ModeMatters op := h
  obtain ⟨legacy, modern, hlegacy, hmodern, hparted⟩ :=
    execute_of_modeMatters m.state.pc hpolled
  have hl : (m.inMode true).cycle i.keyboard i.now = _ := cycle_of_operation_ok hop hlegacy
  have hd : (m.inMode false).cycle i.keyboard i.now = _ := cycle_of_operation_ok hop hmodern
  obtain ⟨hbeeps, hrandom, hclock, hticked⟩ := tick_of_parted hparted m.random m.clock i.now
  dsimp only
  rw [hl, hd]
  refine ⟨rfl, rfl, ?_, rfl, hrandom, hclock, hticked⟩
  exact congrArg (fun beeps => Callback.cycle :: List.replicate beeps .beep) hbeeps

/-! ## Pairs of runs -/

/-- Two machines whose settings are valid and differ in the layout alone run the same, settings
aside : all their answers are, to calls of any kind. So are the answers of a machine in either
mode to cycles that execute no operation to which the mode makes a difference. In the first
cycle that does, neither machine fails, and the states part as the operation parts them. -/
theorem answers_of_switches :
    (∀ (settings : Settings) (compact : Bool) (seed : UInt64) (calls : List Call),
      settings.Valid → (settings.inLayout compact).Valid → ∃ m : Machine,
        Machine.new settings (.ofSeed seed) = .ok m ∧
        Machine.new (settings.inLayout compact) (.ofSeed seed) = .ok (m.inLayout compact) ∧
        (m.inLayout compact).answers calls =
          (m.answers calls).map (Run.mapState (.inLayout compact))) ∧
    ∀ (m : Machine) (inputs : List Input), (m.inMode true).Neutral inputs →
      let legacy := (m.inMode true).serve (inputs.map .cycle)
      let modern := (m.inMode false).serve (inputs.map .cycle)
      (m.inMode false).answers (inputs.map .cycle) =
        ((m.inMode true).answers (inputs.map .cycle)).map (Run.mapState (.inMode false)) ∧
      modern = legacy.inMode false ∧
      ∀ (op : Operation) (i : Input), legacy.state.operation? = some op →
        legacy.state.ModeMatters op →
        let l := legacy.cycle i.keyboard i.now
        let d := modern.cycle i.keyboard i.now
        l.fault = none ∧ d.fault = none ∧ d.callbacks = l.callbacks ∧ d.log = l.log ∧
          d.machine.random = l.machine.random ∧ d.machine.clock = l.machine.clock ∧
          op.Parted legacy.state l.machine.state d.machine.state := by
  refine ⟨fun settings compact seed calls hvalid hvalid' => ?_, fun m inputs hneutral => ?_⟩
  · refine ⟨_, new_eq_ok hvalid _, ?_, ?_⟩
    · rw [new_eq_ok hvalid', State.initial_inLayout]
      rfl
    · exact answers_mapSettings (g := .inLayout compact) (fun _ => rfl) _ calls
  · have hmodern : (m.inMode false).serve (inputs.map .cycle) =
        ((m.inMode true).serve (inputs.map .cycle)).inMode false :=
      (answers_of_neutral (.inMode false) hneutral).2
    have hlegacy : (m.inMode true).serve (inputs.map .cycle) =
        ((m.inMode true).serve (inputs.map .cycle)).inMode true :=
      (answers_of_neutral (.inMode true) hneutral).2
    refine ⟨(answers_of_neutral (.inMode false) hneutral).1, hmodern, fun op i hop hmatters => ?_⟩
    have hcycle := cycle_of_modeMatters hop hmatters i
    rw [← hmodern, ← hlegacy] at hcycle
    exact hcycle

/-- The default machine and the one without the compact layout, with no program loaded; and a
shift of `V0`, which is taken from `V1` in legacy mode. -/
theorem answers_of_switches_shiftRight :
    (∃ m : Machine, Machine.new {} (.ofSeed 3) = .ok m ∧
      (m.inLayout false).answers [.cycle ⟨0, 5⟩] =
        (m.answers [.cycle ⟨0, 5⟩]).map (Run.mapState (.inLayout false))) ∧
    ∃ m : Machine,
      let legacy := ((m.inMode true).serve ([⟨0, 5⟩].map .cycle)).cycle 0 6
      let modern := ((m.inMode false).serve ([⟨0, 5⟩].map .cycle)).cycle 0 6
      legacy.fault = none ∧ modern.fault = none ∧
        legacy.machine.state.register 0 = 0 ∧ modern.machine.state.register 0 = 0x15 ∧
        ∀ k, k ≠ 0 → k ≠ State.flagRegister →
          modern.machine.state.register k = legacy.machine.state.register k := by
  have hvalid : (Settings.inLayout false {}).Valid := rfl
  refine ⟨?_, ?_⟩
  · obtain ⟨m, hm, -, hanswers⟩ := answers_of_switches.1 {} false 3 [.cycle ⟨0, 5⟩]
      Settings.valid_default hvalid
    exact ⟨m, hm, hanswers⟩
  · let larger : Settings := { Settings.smallest with memorySize := 0x204 }
    let m : Machine := ⟨.holding larger 0x200 [0x60, 0x2A, 0x80, 0x16], .ofSeed 0, none⟩
    have hfirst : (m.inMode true).state.operation? = some (.setByte 0 0x2A) := by decide +kernel
    have hneutral : (m.inMode true).Neutral [⟨0, 5⟩] := by
      refine ⟨fun op hop => ?_, trivial⟩
      obtain rfl := Option.some.inj (hfirst.symm.trans hop)
      exact id
    have hsource :
        ((m.inMode true).serve ([⟨0, 5⟩].map .cycle)).state.ModeMatters (.shiftRight 0 1) :=
      show State.register _ _ ≠ State.register _ _ by decide +kernel
    obtain ⟨-, -, hpart⟩ := answers_of_switches.2 m [⟨0, 5⟩] hneutral
    obtain ⟨hlegacy, hmodern, -, -, -, -, hregisters, -⟩ :=
      hpart (.shiftRight 0 1) ⟨0, 6⟩ (by decide +kernel) hsource
    dsimp only at hlegacy hmodern hregisters
    exact ⟨m, hlegacy, hmodern, by decide +kernel, by decide +kernel, hregisters⟩

end Machine

end Chip8
