import Chip8.Proofs.FailedCycle
import Chip8.Proofs.Instruction
import Chip8.Proofs.Ticking
import Mathlib.Algebra.Ring.Nat

/-!
# What a platform is told

A platform is told that the machine was built, and then of every cycle that it begins, of the screen
if the instruction clears it or draws, and of each step down that the timers of the cycle take the
sound timer. `Operation.screenTold` is what an operation has to tell of the screen, and
`Turn.soundDrop` how far the sound timer goes down; one cycle tells just these, in this order
(`Turn.callbacks_outcome`).

The poll at the beginning of a cycle is the platform's own : it may leave any state behind (`Poll`).
So `Machine.runPolled` is a run on any platform, and `Machine.run` the one on a platform that
changes the keyboard alone (`runPolled_poll`). `Machine.runPolled_tells` : what a platform is told
along a run is what its cycles tell, one after the other, so that the beeps add up to the steps of
the sound timer.
-/

namespace Chip8

/-! ## Beeps -/

/-- A beep for each step of the sound timer. -/
theorem Timers.drain_beeps (interval now : Nat) (t : Timers) (beeps : Nat) :
    (drain interval now t beeps).2 + (drain interval now t beeps).1.sound.toNat =
      beeps + t.sound.toNat := by
  induction t, beeps using drain.induct interval now with
  | case1 t beeps h ih =>
    have hstep : (if t.sound = 0 then beeps else beeps + 1) + (t.endPeriod interval).sound.toNat =
        beeps + t.sound.toNat := by
      have hlower : (t.endPeriod interval).sound.toNat = t.sound.toNat - 1 := toNat_lower _
      have hzero : t.sound = 0 ↔ t.sound.toNat = 0 := UInt8.toNat_inj.symm
      rw [hlower]
      simp only [hzero]
      split_ifs <;> omega
    simp only [dite_eq_ite] at ih
    rw [drain, if_pos h, ih, hstep]
  | case2 t beeps h => rw [drain, if_neg h]

theorem Machine.tick_beeps (m : Machine) (now : Nat) :
    (m.tick now).2 = m.state.sound.toNat - (m.tick now).1.state.sound.toNat := by
  have hbeeps := Timers.drain_beeps m.state.timerInterval now
    ⟨m.state.delay, m.state.sound, m.clock.getD now⟩ 0
  rw [Nat.zero_add] at hbeeps
  exact Nat.eq_sub_of_add_eq hbeeps

/-! ## The screen -/

/-- What an operation that follows the fetch tells of the screen : a clear that it is clear, a
sprite that can be drawn the state with the sprite and the flag. -/
def Operation.screenTold (s : State) : Operation → List Callback
  | .clear => [.clearScreen]
  | .draw x y rows =>
    match s.drawSprite (s.register x) (s.register y) (UInt8.ofNat rows.val) with
    | .ok (drawn, hit) => [.screenUpdate (drawn.setFlag hit)]
    | .error _ => []
  | _ => []

theorem Operation.mem_screenTold {s : State} {op : Operation} {c : Callback}
    (h : c ∈ op.screenTold s) : c = .clearScreen ∨ ∃ seen, c = .screenUpdate seen := by
  unfold screenTold at h
  split at h
  · exact .inl (List.mem_singleton.1 h)
  · split at h
    · exact .inr ⟨_, List.mem_singleton.1 h⟩
    · cases h
  · cases h

namespace Machine

variable {m : Machine} {address : UInt16} {op : Operation}

theorem screenTold_of_execute_ok {effect : Effect} (h : m.execute address op = .ok effect) :
    effect.callbacks = op.screenTold m.state := by
  cases op <;> simp only [execute, Operation.screenTold] at h ⊢
  case ret | call | storeDecimal | storeRegisters | loadRegisters =>
    split at h <;> cases h
    rfl
  case draw =>
    split at h
    · cases h
    · rename_i hdraw
      cases h
      rw [hdraw]
  case raw => cases h
  all_goals
    cases h
    rfl

/-- An operation that fails has nothing to tell. -/
theorem screenTold_of_execute_error {fault : Fault} (h : m.execute address op = .error fault) :
    op.screenTold m.state = [] := by
  cases op <;> simp only [execute, Operation.screenTold] at h ⊢
  case clear => cases h
  case draw =>
    split at h
    · rename_i hdraw
      rw [hdraw]
    · cases h

end Machine

/-! ## One cycle -/

/-- A cycle from where its poll has left the machine. -/
structure Turn where
  /-- The machine behind the poll. -/
  machine : Machine
  /-- The instant in nanoseconds. -/
  now : Nat

namespace Turn

/-- What the cycle comes to. -/
def outcome (t : Turn) : Run := t.machine.cycle t.machine.state.keyboard t.now

/-- What the instruction tells of the screen, if there is one. -/
def screenTold (t : Turn) : List Callback :=
  match t.machine.state.operation? with
  | some op => op.screenTold t.machine.fetched.state
  | none => []

/-- How far the sound timer is behind the cycle below where it is behind the instruction. -/
def soundDrop (t : Turn) : Nat :=
  t.machine.advance.machine.state.sound.toNat - t.outcome.machine.state.sound.toNat

theorem callbacks_await (m : Machine) (wait : KeyWait) : (m.await wait).callbacks = [] := by
  unfold Machine.await
  split <;> rfl

/-- Before the timers count nothing is told but what the instruction does to the screen. -/
theorem callbacks_advance (t : Turn) : t.machine.advance.callbacks = t.screenTold := by
  unfold screenTold
  cases hop : t.machine.state.operation? with
  | none =>
    obtain ⟨wait, -, hadvance⟩ | ⟨fault, hadvance⟩ := Machine.advance_of_operation?_eq_none hop
    · rw [hadvance]
      exact callbacks_await _ _
    · rw [hadvance]
  | some op =>
    cases hexecute : t.machine.fetched.execute t.machine.state.pc op with
    | error fault =>
      rw [Machine.advance_of_operation_error hop hexecute]
      exact (Machine.screenTold_of_execute_error hexecute).symm
    | ok effect =>
      rw [Machine.advance_of_operation_ok hop hexecute]
      exact Machine.screenTold_of_execute_ok hexecute

theorem fault_advance (t : Turn) : t.machine.advance.fault = t.outcome.fault :=
  (Machine.fault_cycle t.machine _ t.now).symm

/-- A cycle that fails does not come to its timers. -/
theorem outcome_of_fault {t : Turn} {fault : Fault} (h : t.outcome.fault = some fault) :
    t.outcome = { t.machine.advance with callbacks := .cycle :: t.machine.advance.callbacks } :=
  Machine.cycle_of_advance_fault ((fault_advance t).trans h)

theorem outcome_of_ok {t : Turn} (h : t.outcome.fault = none) :
    t.outcome = { t.machine.advance with
      machine := (t.machine.advance.machine.tick t.now).1
      callbacks := .cycle :: t.machine.advance.callbacks ++
        List.replicate (t.machine.advance.machine.tick t.now).2 .beep } :=
  Machine.cycle_of_advance_ok ((fault_advance t).trans h)

theorem soundDrop_of_fault {t : Turn} {fault : Fault} (h : t.outcome.fault = some fault) :
    t.soundDrop = 0 := by
  rw [soundDrop, outcome_of_fault h, Nat.sub_self]

theorem soundDrop_of_ok {t : Turn} (h : t.outcome.fault = none) :
    t.soundDrop = (t.machine.advance.machine.tick t.now).2 := by
  rw [soundDrop, outcome_of_ok h, Machine.tick_beeps]

/-- A cycle tells that it begins, what its instruction does to the screen, and of every step of the
sound timer. -/
theorem callbacks_outcome (t : Turn) :
    t.outcome.callbacks = .cycle :: t.screenTold ++ List.replicate t.soundDrop .beep := by
  rw [← callbacks_advance]
  cases hfault : t.outcome.fault with
  | some fault =>
    rw [soundDrop_of_fault hfault, outcome_of_fault hfault, List.replicate_zero, List.append_nil]
  | none => rw [soundDrop_of_ok hfault, outcome_of_ok hfault]

/-- A cycle that fails has nothing to tell of the screen, and one that waits has no instruction. -/
theorem screenTold_eq_nil {t : Turn}
    (h : t.outcome.fault ≠ none ∨ t.machine.state.keyWait ≠ none) : t.screenTold = [] := by
  rcases h with hfault | hwait
  · obtain ⟨fault, hfault⟩ := Option.ne_none_iff_exists'.1 hfault
    have hadvance := (fault_advance t).trans hfault
    rw [← callbacks_advance]
    exact (Machine.advance_of_fault hadvance).2
  · obtain ⟨wait, hwait⟩ := Option.ne_none_iff_exists'.1 hwait
    have hop : t.machine.state.operation? = none := by
      rw [State.operation?, hwait]
      rfl
    rw [screenTold, hop]

theorem mem_screenTold {t : Turn} {c : Callback} (h : c ∈ t.screenTold) :
    c = .clearScreen ∨ ∃ seen, c = .screenUpdate seen := by
  unfold screenTold at h
  split at h
  · exact Operation.mem_screenTold h
  · cases h

/-- The state that is shown has the sprite on its screen, and the flag in its register. -/
theorem drawn_of_mem_screenTold {t : Turn} {seen : State} (h : .screenUpdate seen ∈ t.screenTold) :
    ∃ x y rows drawn hit, t.machine.state.operation? = some (.draw x y rows) ∧
      t.machine.fetched.state.drawSprite (t.machine.state.register x)
        (t.machine.state.register y) (UInt8.ofNat rows.val) = .ok (drawn, hit) ∧
      seen.screen = drawn.screen ∧
      seen.register State.flagRegister = if hit then 1 else 0 := by
  unfold screenTold at h
  split at h
  · rename_i op hop
    unfold Operation.screenTold at h
    split at h
    · cases List.mem_singleton.1 h
    · split at h
      · rename_i drawn hit hdraw
        obtain rfl := Callback.screenUpdate.inj (List.mem_singleton.1 h)
        exact ⟨_, _, _, drawn, hit, hop, hdraw, rfl, Vector.getElem_set_self _⟩
      · cases h
    · cases h
  · cases h

theorem init_not_mem (t : Turn) (s : State) : .init s ∉ t.outcome.callbacks := by
  intro hmem
  rw [callbacks_outcome] at hmem
  rcases List.mem_append.1 hmem with hmem | hmem
  · rcases List.mem_cons.1 hmem with h | hmem
    · cases h
    · rcases mem_screenTold hmem with h | ⟨seen, h⟩ <;> cases h
  · cases List.eq_of_mem_replicate hmem

theorem count_beep_outcome (t : Turn) : t.outcome.callbacks.count .beep = t.soundDrop := by
  have hquiet : .beep ∉ t.screenTold := by
    intro hmem
    rcases mem_screenTold hmem with h | ⟨seen, h⟩ <;> cases h
  rw [callbacks_outcome, List.count_append, List.count_cons_of_ne (by decide),
    List.count_eq_zero_of_not_mem hquiet, List.count_replicate_self, Nat.zero_add]

end Turn

/-! ## Runs on any platform -/

/-- What a platform does at the beginning of a cycle. -/
structure Poll where
  /-- What it makes of the state. -/
  change : State → State
  /-- The instant in nanoseconds. -/
  now : Nat

/-- The poll of a platform that changes the keyboard alone. -/
def Machine.Input.poll (i : Machine.Input) : Poll :=
  ⟨fun s => { s with keyboard := i.keyboard }, i.now⟩

namespace Machine

/-- The cycle that begins with a poll. -/
def turn (m : Machine) (p : Poll) : Turn := ⟨{ m with state := p.change m.state }, p.now⟩

/-- Cycles that begin with the given polls, up to the first fault. -/
def runPolled (m : Machine) : List Poll → Run
  | [] => { machine := m }
  | p :: ps =>
    let c := (m.turn p).outcome
    match c.fault with
    | some _ => c
    | none =>
      let r := c.machine.runPolled ps
      { r with callbacks := c.callbacks ++ r.callbacks, log := c.log ++ r.log }

/-- The cycles that are carried out, one that fails the last. -/
def turns (m : Machine) : List Poll → List Turn
  | [] => []
  | p :: ps =>
    m.turn p ::
      match (m.turn p).outcome.fault with
      | some _ => []
      | none => (m.turn p).outcome.machine.turns ps

theorem runPolled_poll (m : Machine) (inputs : List Input) :
    m.runPolled (inputs.map Input.poll) = m.run inputs := by
  induction inputs generalizing m with
  | nil => rfl
  | cons i is ih =>
    have hcycle : (m.turn i.poll).outcome = m.cycle i.keyboard i.now := rfl
    simp only [List.map_cons, runPolled, hcycle, ih]
    rfl

variable {m : Machine} {p : Poll} {ps : List Poll}

theorem turns_of_fault {fault : Fault} (h : (m.turn p).outcome.fault = some fault) :
    m.turns (p :: ps) = [m.turn p] := by
  simp only [turns, h]

theorem turns_of_ok (h : (m.turn p).outcome.fault = none) :
    m.turns (p :: ps) = m.turn p :: (m.turn p).outcome.machine.turns ps := by
  simp only [turns, h]

theorem callbacks_runPolled (m : Machine) (polls : List Poll) :
    (m.runPolled polls).callbacks = (m.turns polls).flatMap fun t => t.outcome.callbacks := by
  induction polls generalizing m with
  | nil => rfl
  | cons p ps ih =>
    cases hfault : (m.turn p).outcome.fault with
    | some fault =>
      rw [turns_of_fault hfault, List.flatMap_cons, List.flatMap_nil, List.append_nil]
      simp only [runPolled, hfault]
    | none =>
      rw [turns_of_ok hfault, List.flatMap_cons, ← ih]
      simp only [runPolled, hfault]

/-- A machine tells its platform that it was built. Along a run, also one that fails, it tells of
every cycle that it begins, then of the screen if the instruction clears it or draws a sprite, the
state with the sprite and the flag, then of as many beeps as the timers lower the sound timer. A
cycle that fails or waits for a key tells nothing of the screen, and one that fails does not beep.
So the beeps of a run are as many as the sound timer goes down in its cycles. The platform may have
changed the state in every poll. -/
theorem runPolled_tells :
    (∀ (settings : Settings) (random : Random) (built : Machine),
      Machine.new settings random = .ok built → built.created.callbacks = [.init built.state]) ∧
    ∀ (m : Machine) (polls : List Poll),
      let told := (m.runPolled polls).callbacks
      let turns := m.turns polls
      told = turns.flatMap
        (fun t => .cycle :: t.screenTold ++ List.replicate t.soundDrop .beep) ∧
      (∀ s, .init s ∉ told) ∧
      (∀ t ∈ turns, t.outcome.fault ≠ none ∨ t.machine.state.keyWait ≠ none →
        t.screenTold = []) ∧
      (∀ t ∈ turns, t.outcome.fault ≠ none → t.soundDrop = 0) ∧
      (∀ t ∈ turns, ∀ seen, .screenUpdate seen ∈ t.screenTold →
        ∃ x y rows drawn hit, t.machine.state.operation? = some (.draw x y rows) ∧
          t.machine.fetched.state.drawSprite (t.machine.state.register x)
            (t.machine.state.register y) (UInt8.ofNat rows.val) = .ok (drawn, hit) ∧
          seen.screen = drawn.screen ∧
          seen.register State.flagRegister = if hit then 1 else 0) ∧
      told.count .beep = (turns.map Turn.soundDrop).sum ∧
      ∀ inputs : List Input, m.runPolled (inputs.map Input.poll) = m.run inputs := by
  refine ⟨fun _ _ _ _ => rfl, fun m polls => ?_⟩
  intro told turns
  have htold : told = turns.flatMap fun t => t.outcome.callbacks := callbacks_runPolled m polls
  refine ⟨?_, fun s hmem => ?_, fun t _ => Turn.screenTold_eq_nil, fun t _ hfault => ?_,
    fun t _ seen => Turn.drawn_of_mem_screenTold, ?_, runPolled_poll m⟩
  · simp only [htold, Turn.callbacks_outcome]
  · rw [htold] at hmem
    obtain ⟨t, -, hinit⟩ := List.mem_flatMap.1 hmem
    exact t.init_not_mem s hinit
  · obtain ⟨fault, hfault⟩ := Option.ne_none_iff_exists'.1 hfault
    exact Turn.soundDrop_of_fault hfault
  · rw [htold, List.count_flatMap]
    exact congrArg List.sum (List.map_congr_left fun t _ => t.count_beep_outcome)

/-- A sprite, a clear with two periods behind it, and a return from no call. The sound timer is set
by the platform, in the poll of the second cycle. -/
theorem runPolled_tells_return : ∃ (built m : Machine) (polls : List Poll) (drew failed : Turn),
    Machine.new .smallest (.ofSeed 0) = .ok built ∧
    built.created.callbacks = [.init built.state] ∧
    drew ∈ m.turns polls ∧ (∃ seen, .screenUpdate seen ∈ drew.screenTold ∧
      ∃ x y rows, drew.machine.state.operation? = some (.draw x y rows)) ∧
    failed ∈ m.turns polls ∧ failed.outcome.fault = some .stackOverflow ∧
    failed.screenTold = [] ∧ failed.soundDrop = 0 ∧
    (m.runPolled polls).callbacks.count .beep = 2 := by
  let built : Machine := ⟨.initial .smallest, .ofSeed 0, none⟩
  let larger : Settings := { Settings.smallest with memorySize := 0x206 }
  let holding : State := .holding larger 0x200 [0xD0, 0x05, 0x00, 0xE0, 0x00, 0xEE]
  let m : Machine := ⟨{ holding with timerInterval := 10 }, .ofSeed 0, none⟩
  let setSound : Poll := ⟨fun s => { s with sound := 3 }, 25⟩
  let polls : List Poll := [⟨id, 5⟩, setSound, ⟨id, 90⟩]
  let first : Turn := m.turn ⟨id, 5⟩
  let second : Turn := first.outcome.machine.turn setSound
  let third : Turn := second.outcome.machine.turn ⟨id, 90⟩
  have hnew : Machine.new .smallest (.ofSeed 0) = .ok built := new_eq_ok Settings.valid_smallest _
  obtain ⟨hfirst, hsecond, hthird⟩ : first.outcome.fault = none ∧ second.outcome.fault = none ∧
      third.outcome.fault = some .stackOverflow := by
    decide +kernel
  have hturns : m.turns polls = [first, second, third] := by
    rw [turns_of_ok hfirst, turns_of_ok hsecond, turns_of_fault hthird]
  have hsteps : ([first, second, third].map Turn.soundDrop).sum = 2 := by decide +kernel
  obtain ⟨htold, hclear⟩ : first.screenTold ≠ [] ∧ .clearScreen ∉ first.screenTold := by
    decide +kernel
  obtain ⟨seen, hseen⟩ : ∃ seen, .screenUpdate seen ∈ first.screenTold := by
    obtain ⟨c, hc⟩ := List.exists_mem_of_ne_nil _ htold
    obtain rfl | ⟨seen, rfl⟩ := Turn.mem_screenTold hc
    · exact absurd hc hclear
    · exact ⟨seen, hc⟩
  have hdrew : first ∈ m.turns polls := by
    rw [hturns]
    exact List.mem_cons_self
  have hfailed : third ∈ m.turns polls := by
    rw [hturns]
    exact List.mem_of_getElem? (i := 2) rfl
  obtain ⟨hinit, hruns⟩ := runPolled_tells
  obtain ⟨-, -, hquiet, hsilent, hshown, hbeeps, -⟩ := hruns m polls
  obtain ⟨x, y, rows, -, -, hdraw, -⟩ := hshown first hdrew _ hseen
  have hfault : third.outcome.fault ≠ none := by
    rw [hthird]
    nofun
  rw [hturns, hsteps] at hbeeps
  exact ⟨built, m, polls, first, third, hnew, hinit _ _ _ hnew, hdrew,
    ⟨_, hseen, x, y, rows, hdraw⟩, hfailed, hthird, hquiet _ hfailed (.inl hfault),
    hsilent _ hfailed hfault, hbeeps⟩

end Machine

end Chip8
