import Chip8.Proofs.InPlace

/-!
# Well-formed machines stay in range

On a well-formed machine, changing it in place (`Chip8.Proofs.InPlace`) and handing it over
whole come to the same. There is one lemma for each computation in place, named `run_` and the
computation : it has a result, the result is that of the function on whole machines, and so is
what it leaves behind and tells the platform. Their hypotheses are the bounds that the
invariant keeps (`State.WellFormed`) or that a check before has made sure of.

`Machine.serve_stays_in_range` : no call of a host, and no view of the state, ever reaches out
of the range of a buffer or of a number on a machine that was built from valid settings.
-/

namespace Chip8

open Partial

/-- A machine with another screen. -/
def Machine.withScreen (m : Machine) (screen : Screen) : Machine :=
  { m with state := { m.state with screen := screen } }

namespace InPlace

variable {m : Machine} (told : List Callback)

/-! ## Drawing -/

theorem run_invertByte {k : Nat} (hk : k < m.state.screen.bytes.size) (bits : UInt8) :
    (invertByte k bits).run ⟨m, told⟩ =
      some (.ok (m.state.screen.xorByte k bits).2,
        ⟨m.withScreen (m.state.screen.xorByte k bits).1, told⟩) := by
  simp [invertByte, run_bind, Screen.xorByte, Screen.byte, Machine.withScreen, hk]

/-- The part of a row in the byte it begins in, and the part in the byte to the right of it
or, at the edge, in the first byte of the row. -/
theorem run_drawRow (hs : m.state.screen.WellFormed) {x : Nat} {y : UInt8}
    (hx : x < m.state.screen.width.toNat) (hy : y.toNat < m.state.screen.height.toNat)
    (row : UInt8) :
    (drawRow (x / 8) (UInt8.ofNat (x % 8)) y row).run ⟨m, told⟩ =
      some (.ok (m.state.screen.drawRow x y.toNat row).2,
        ⟨m.withScreen (m.state.screen.drawRow x y.toNat row).1, told⟩) := by
  have hleft : y.toNat * m.state.screen.byteWidth + x / 8 < m.state.screen.bytes.size :=
    hs.index_lt hy (hs.div_lt hx)
  have hnext : mod? (x / 8 + 1) m.state.screen.byteWidth =
      some ((x / 8 + 1) % m.state.screen.byteWidth) := if_neg (Nat.ne_of_gt hs.byteWidth_pos)
  have hoffset := toNat_offset_lt x
  simp only [drawRow, run_bind, run_state, hnext, shiftRight?_eq row hoffset, run_need_some,
    run_invertByte told hleft]
  unfold Screen.drawRow
  dsimp only
  split_ifs with h0
  · rfl
  · have hright : y.toNat * m.state.screen.byteWidth + (x / 8 + 1) % m.state.screen.byteWidth <
        (m.withScreen (m.state.screen.xorByte (y.toNat * m.state.screen.byteWidth + x / 8)
          (row >>> UInt8.ofNat (x % 8))).1).state.screen.bytes.size := by
      refine Nat.lt_of_lt_of_eq ?_ (Screen.size_xorByte ..).symm
      exact hs.index_lt hy (Nat.mod_lt _ hs.byteWidth_pos)
    simp only [run_bind, byteSub?_eight hoffset, shiftLeft?_eight_sub row hoffset h0,
      run_need_some, run_invertByte told hright, run_pure]
    rfl

/-- Rows below each other, the first row following the last. -/
theorem run_drawRows (hs : m.state.screen.WellFormed) {x : Nat} {y : UInt8}
    (hx : x < m.state.screen.width.toNat) (hy : y.toNat < m.state.screen.height.toNat)
    (hit : Bool) (rows : List UInt8) :
    (drawRows (x / 8) (UInt8.ofNat (x % 8)) y hit rows).run ⟨m, told⟩ =
      some (.ok (m.state.screen.drawRows x y.toNat hit rows).2,
        ⟨m.withScreen (m.state.screen.drawRows x y.toNat hit rows).1, told⟩) := by
  induction rows generalizing m y hit with
  | nil => rfl
  | cons row rows ih =>
    have hrow := run_drawRow told hs hx hy row
    generalize hdrawn : m.withScreen (m.state.screen.drawRow x y.toNat row).1 = drawn at hrow
    have hscreen : drawn.state.screen = (m.state.screen.drawRow x y.toNat row).1 := by
      rw [← hdrawn]
      rfl
    have hrows := ih (m := drawn) (y := (y + 1) % m.state.screen.height)
      (by rw [hscreen]; exact hs.drawRow x y.toNat row)
      (by rw [hscreen, Screen.width_drawRow]; exact hx)
      (by rw [hscreen, Screen.height_drawRow]; exact toNat_mod_lt _ hs.height_pos)
      (hit || (m.state.screen.drawRow x y.toNat row).2)
    simp only [drawRows, run_bind, hrow, byteAdd?_one hy, run_state, hscreen,
      Screen.height_drawRow, byteMod?_eq _ hs.height_pos, run_need_some, hrows, Screen.drawRows,
      toNat_add_one_mod hy]
    rw [← hdrawn]
    rfl

theorem run_drawSprite (hm : m.state.WellFormed) (x y rows : UInt8) :
    (drawSprite x y rows).run ⟨m, told⟩ =
      match m.state.drawSprite x y rows with
      | .error fault => some (.error fault, ⟨m, told⟩)
      | .ok (drawn, hit) => some (.ok hit, ⟨{ m with state := drawn }, told⟩) := by
  have hs := hm.wellFormed_screen
  have hx := toNat_mod_lt x hs.width_pos
  have hy := toNat_mod_lt y hs.height_pos
  unfold State.drawSprite
  dsimp only
  simp only [drawSprite, run_bind, run_state]
  split_ifs with hover hend
  · rw [failIf_true hover, run_fail]
  · rw [failIf_false hover, failIf_true hend, run_pure]
    rfl
  · have hslice : slice? m.state.memory m.state.index.toNat rows.toNat =
        some (m.state.memory.slice m.state.index.toNat rows.toNat) := if_pos (by omega)
    simp only [failIf_false hover, failIf_false hend, run_pure, byteMod?_eq _ hs.width_pos,
      byteMod?_eq _ hs.height_pos, hslice, run_need_some, mod_eight_eq,
      run_drawRows told hs hx hy, Screen.draw]
    rw [UInt8.toNat_mod, UInt8.toNat_mod]
    rfl

/-! ## Operations -/

theorem run_readByte {address : Nat} (h : address < m.state.memory.size) :
    (readByte address).run ⟨m, told⟩ = some (.ok (m.state.memory.read address), ⟨m, told⟩) := by
  simp [readByte, run_bind, Memory.read, h]

theorem run_writeBytes {address : Nat} {bytes : List UInt8}
    (h : address + bytes.length ≤ m.state.memory.size) :
    (writeBytes address bytes).run ⟨m, told⟩ = some (.ok (),
      ⟨{ m with
          state := { m.state with memory := m.state.memory.write address bytes } }, told⟩) := by
  simp [writeBytes, run_bind, write?, h]

theorem run_block (length : Nat) :
    (block length).run ⟨m, told⟩ =
      match m.state.checkBlock length with
      | .error fault => some (.error fault, ⟨m, told⟩)
      | .ok () => some (.ok m.state.index.toNat, ⟨m, told⟩) := by
  unfold block State.checkBlock
  dsimp only
  simp only [run_bind, run_state]
  split_ifs with hover hend
  · rw [failIf_true hover, run_fail]
  · rw [failIf_false hover, failIf_true hend, run_pure]
    rfl
  · rw [failIf_false hover, failIf_false hend]
    rfl

theorem run_moveIndex (count : Nat) :
    (moveIndex count).run ⟨m, told⟩ = some (.ok (),
      ⟨{ m with state := { m.state with index := Machine.indexAfter m.state count } }, told⟩) := by
  unfold moveIndex Machine.indexAfter
  simp only [run_bind, run_state]
  split_ifs <;> rfl

theorem run_keyDown (key : UInt8) :
    (keyDown key).run ⟨m, told⟩ = some (.ok (m.state.isKeyPressed key), ⟨m, told⟩) := by
  simp only [keyDown, run_bind, keyFlag?_eq, run_need_some, run_state, run_pure]
  rfl

theorem le_of_checkBlock {s : State} {length : Nat} (h : s.checkBlock length = .ok ()) :
    s.index.toNat + length ≤ s.memory.size :=
  (State.checkBlock_eq_ok_iff.1 h).2.1

theorem run_atOnce (address : UInt16) (op : Operation) :
    (atOnce address op).run ⟨m, told⟩ =
      match m.execute address op with
      | .error fault => some (.error fault, ⟨m, told⟩)
      | .ok effect => some (.ok (), ⟨effect.machine, told ++ effect.callbacks⟩) := by
  cases h : m.execute address op <;> simp [atOnce, run, h]

/-- The return address is in the slot that was used last. -/
theorem run_ret (hm : m.state.WellFormed) (address : UInt16) :
    (execute address .ret).run ⟨m, told⟩ = (atOnce address .ret).run ⟨m, told⟩ := by
  have hdepth := hm.depth
  rw [run_atOnce]
  simp only [execute, run_bind, run_state, Machine.execute, CallStack.pop?]
  split_ifs with h0
  · rw [failIf_true (by simp only [CallStack.pointer, h0]; decide)]
    rfl
  · have hslot : m.state.stack.depth - 1 < m.state.stack.slots.size := by omega
    have hsub : sub? m.state.stack.depth 1 = some (m.state.stack.depth - 1) :=
      if_pos (Nat.pos_of_ne_zero h0)
    rw [failIf_false (by simp only [CallStack.pointer]; omega), run_pure]
    simp [hsub, hslot]

/-- A return address goes into the first slot that is not in use. -/
theorem run_call (address target : UInt16) :
    (execute address (.call target)).run ⟨m, told⟩ =
      (atOnce address (.call target)).run ⟨m, told⟩ := by
  rw [run_atOnce]
  simp only [execute, run_bind, run_state, Machine.execute, CallStack.push?]
  split_ifs with hroom
  · have hslot : m.state.stack.depth < m.state.stack.slots.size := hroom
    rw [failIf_false (Nat.not_le_of_lt hroom), run_pure]
    simp [hslot]
  · rw [failIf_true (Nat.le_of_not_lt hroom)]
    rfl

theorem run_draw (hm : m.state.WellFormed) (address : UInt16) (x y rows : Nibble) :
    (execute address (.draw x y rows)).run ⟨m, told⟩ =
      (atOnce address (.draw x y rows)).run ⟨m, told⟩ := by
  rw [run_atOnce]
  simp only [execute, run_bind, run_state, run_drawSprite told hm, Machine.execute]
  cases m.state.drawSprite (m.state.register x) (m.state.register y) (UInt8.ofNat rows.val) <;>
    rfl

/-- The digits are written one by one, into a block that was checked as a whole. -/
theorem run_storeDecimal (address : UInt16) (x : Nibble) :
    (execute address (.storeDecimal x)).run ⟨m, told⟩ =
      (atOnce address (.storeDecimal x)).run ⟨m, told⟩ := by
  rw [run_atOnce]
  simp only [execute, run_bind, run_state, run_block, Machine.execute]
  cases hcheck : m.state.checkBlock 3 with
  | error fault => rfl
  | ok =>
    have hle := le_of_checkBlock hcheck
    dsimp only
    rw [run_writeBytes]
    · dsimp only
      rw [run_writeBytes]
      · dsimp only
        rw [run_writeBytes]
        · simp [Machine.decimalDigits, Memory.write]
        · simp only [Memory.size_write, List.length_singleton]
          omega
      · simp only [Memory.size_write, List.length_singleton]
        omega
    · simp only [List.length_singleton]
      omega

theorem run_storeRegisters (address : UInt16) (x : Nibble) :
    (execute address (.storeRegisters x)).run ⟨m, told⟩ =
      (atOnce address (.storeRegisters x)).run ⟨m, told⟩ := by
  rw [run_atOnce]
  simp only [execute, run_bind, run_state, run_block, Machine.execute]
  cases hcheck : m.state.checkBlock (x.val + 1) with
  | error fault => rfl
  | ok =>
    have hle := le_of_checkBlock hcheck
    simp only [take?_registers, run_need_some]
    rw [run_writeBytes]
    · simp only [run_moveIndex]
      simp [Machine.indexAfter, State.legacy]
    · simp only [List.length_take, Vector.length_toList]
      omega

theorem loadedRegisters_eq (s : State) (start count : Nat) :
    Machine.loadedRegisters s start count =
      Vector.ofFn fun k : Fin 16 => (s.memory.slice start count).getD k.val (s.register k) := by
  refine congrArg Vector.ofFn (funext fun k => ?_)
  by_cases hk : k.val < count <;> simp [Memory.slice, hk]

theorem indexAfter_registers (s : State) (registers : Vector UInt8 16) (count : Nat) :
    Machine.indexAfter { s with registers := registers } count = Machine.indexAfter s count := rfl

theorem run_loadRegisters (address : UInt16) (x : Nibble) :
    (execute address (.loadRegisters x)).run ⟨m, told⟩ =
      (atOnce address (.loadRegisters x)).run ⟨m, told⟩ := by
  rw [run_atOnce]
  simp only [execute, run_bind, run_state, run_block, Machine.execute]
  cases hcheck : m.state.checkBlock (x.val + 1) with
  | error fault => rfl
  | ok =>
    have hslice : slice? m.state.memory m.state.index.toNat (x.val + 1) =
        some (m.state.memory.slice m.state.index.toNat (x.val + 1)) :=
      if_pos (le_of_checkBlock hcheck)
    simp only [take?_registers, hslice, run_need_some, run_update, run_moveIndex]
    rw [loadedRegisters_eq, List.append_nil, indexAfter_registers]

/-- Carried out in place, every operation does what `Machine.execute` says. -/
theorem run_execute (hm : m.state.WellFormed) (address : UInt16) (op : Operation) :
    (execute address op).run ⟨m, told⟩ = (atOnce address op).run ⟨m, told⟩ := by
  cases op
  case ret => exact run_ret told hm address
  case call target => exact run_call told address target
  case draw x y rows => exact run_draw told hm address x y rows
  case storeDecimal x => exact run_storeDecimal told address x
  case storeRegisters x => exact run_storeRegisters told address x
  case loadRegisters x => exact run_loadRegisters told address x
  case skipIfPressed x =>
    simp only [execute, run_bind, run_state, run_keyDown, run_update, run_atOnce]
    simp [Machine.execute]
  case skipUnlessPressed x =>
    simp only [execute, run_bind, run_state, run_keyDown, run_update, run_atOnce]
    simp [Machine.execute]
  all_goals rfl

/-! ## Cycles -/

theorem run_fetch :
    fetch.run ⟨m, told⟩ =
      match Machine.fetch m.state with
      | .error fault => some (.error fault, ⟨m, told⟩)
      | .ok word => some (.ok word, ⟨m.fetched, told⟩) := by
  unfold Machine.fetch
  simp only [fetch, run_bind, run_state]
  split_ifs with hend
  · rw [failIf_true hend, run_fail]
  · rw [failIf_false hend, run_pure]
    dsimp only
    rw [run_readByte told (by omega)]
    dsimp only
    rw [run_readByte told (by omega)]
    rfl

theorem run_step (hm : m.state.WellFormed) :
    step.run ⟨m, told⟩ = some (outcome told m.step) := by
  unfold Machine.step
  simp only [step, run_bind, run_state, run_fetch]
  cases Machine.fetch m.state with
  | error fault => simp [outcome, Run.result]
  | ok word =>
    simp only [run_execute told (hm.of_sameShape (Machine.sameShape_fetched m)), run_atOnce]
    show _ = some (outcome told (match m.fetched.execute m.state.pc (Operation.decode word) with
      | .error fault => _
      | .ok effect => _))
    cases m.fetched.execute m.state.pc (Operation.decode word) <;>
      simp [outcome, Run.result, Machine.fetched]

theorem run_await (wait : KeyWait) :
    (await wait).run ⟨m, told⟩ = some (outcome told (m.await wait)) := by
  unfold Machine.await
  simp only [await, run_bind, run_state]
  cases Keypad.lowest? (m.state.keyboard &&& wait.mask) <;> simp [run_bind, outcome, Run.result]

/-! ## Timers -/

theorem byteSub?_one {timer : UInt8} (h : 0 < timer) :
    byteSub? timer 1 = some (Timers.lower timer) := by
  have hne : timer ≠ 0 := fun h0 => by simp [h0] at h
  have hle : (1 : UInt8) ≤ timer := UInt8.le_iff_toNat_le.2 (UInt8.lt_iff_toNat_lt.1 h)
  simp [byteSub?, Timers.lower, hne, hle]

theorem lower_of_not_pos {timer : UInt8} (h : ¬0 < timer) :
    timer = 0 ∧ Timers.lower timer = timer := by
  have h0 : timer = 0 :=
    UInt8.toNat_inj.1 (Nat.eq_zero_of_not_pos fun hpos => h (UInt8.lt_iff_toNat_lt.2 hpos))
  exact ⟨h0, by rw [h0]; rfl⟩

theorem run_lowerDelay :
    lowerDelay.run ⟨m, told⟩ = some (.ok (),
      ⟨{ m with state := { m.state with delay := Timers.lower m.state.delay } }, told⟩) := by
  simp only [lowerDelay, run_bind, run_state]
  split_ifs with h
  · simp [run_bind, byteSub?_one h]
  · rw [(lower_of_not_pos h).2]
    rfl

theorem run_lowerSound :
    lowerSound.run ⟨m, told⟩ = some (.ok (),
      ⟨{ m with state := { m.state with sound := Timers.lower m.state.sound } },
        told ++ if m.state.sound = 0 then [] else [.beep]⟩) := by
  simp only [lowerSound, run_bind, run_state]
  by_cases h : 0 < m.state.sound
  · have hne : m.state.sound ≠ 0 := fun h0 => by simp [h0] at h
    simp [h, hne, run_bind, byteSub?_one h]
  · obtain ⟨h0, hlower⟩ := lower_of_not_pos h
    rw [if_neg h, hlower, if_pos h0, List.append_nil]
    rfl

/-- The timers of a machine in a period that began at `since`. -/
def timers (m : Machine) (since : Nat) : Timers := ⟨m.state.delay, m.state.sound, since⟩

/-- A machine with other timers. -/
def withTimers (m : Machine) (t : Timers) : Machine :=
  { m with state := { m.state with delay := t.delay, sound := t.sound } }

theorem run_periods (interval now since : Nat) :
    (periods interval now since).run ⟨m, told⟩ =
      let drained := Timers.drain interval now (timers m since) 0
      some (.ok drained.1.since,
        ⟨withTimers m drained.1, told ++ List.replicate drained.2 .beep⟩) := by
  induction since using periods.induct interval now generalizing m told with
  | case1 since h ih =>
    have hdrain : Timers.drain interval now (timers m since) 0 =
        ((Timers.drain interval now ((timers m since).endPeriod interval) 0).1,
          (Timers.drain interval now ((timers m since).endPeriod interval) 0).2 +
            if m.state.sound = 0 then 0 else 1) := by
      rw [Timers.drain_of_le h.1 (show since + interval ≤ now by omega), ← Timers.drain_add]
      simp only [Nat.zero_add]
      rfl
    have hbeeps (n : Nat) : (if m.state.sound = 0 then [] else [.beep]) ++ List.replicate n .beep =
        List.replicate (n + if m.state.sound = 0 then 0 else 1) Callback.beep := by
      split <;> simp [List.replicate_succ]
    rw [hdrain, periods, if_pos h]
    simp only [run_bind, run_lowerDelay, run_lowerSound, ih, List.append_assoc, hbeeps]
    rfl
  | case2 since h =>
    have hdrain : Timers.drain interval now (timers m since) 0 = (timers m since, 0) := by
      rw [Timers.drain]
      exact if_neg h
    rw [hdrain, periods, if_neg h, run_pure]
    simp only [List.replicate_zero, List.append_nil]
    rfl

theorem run_tick (now : Nat) :
    (tick now).run ⟨m, told⟩ = some (.ok (),
      ⟨(m.tick now).1, told ++ List.replicate (m.tick now).2 .beep⟩) := by
  simp only [tick, run_bind, run_machine, run_change, run_state, run_periods]
  rfl

/-! ## Cycles and calls -/

theorem run_advance (hm : m.state.WellFormed) :
    advance.run ⟨m, told⟩ = some (outcome told m.advance) := by
  unfold Machine.advance
  simp only [advance, run_bind, run_state]
  cases m.state.keyWait with
  | none => exact run_step told hm
  | some wait => exact run_await told wait

/-- The timers are counted only if nothing failed before. -/
theorem run_cycle (hm : m.state.WellFormed) (keyboard : UInt16) (now : Nat) :
    (cycle keyboard now).run ⟨m, told⟩ = some (outcome told (m.cycle keyboard now)) := by
  have hpolled := hm.of_sameShape (m.sameShape_withKeyboard keyboard)
  unfold Machine.cycle
  simp only [cycle, run_bind, run_tell, run_change, run_advance _ hpolled, outcome, Run.result]
  cases hfault : (m.withKeyboard keyboard).advance.fault with
  | some fault => simp
  | none => simp [run_tick]

theorem run_runAll (hm : m.state.WellFormed) (inputs : List Machine.Input) :
    (runAll inputs).run ⟨m, told⟩ = some (outcome told (m.run inputs)) := by
  induction inputs generalizing m told with
  | nil => simp [runAll, outcome, Run.result]
  | cons i is ih =>
    have hcycle := hm.of_sameShape (Machine.sameShape_cycle m i.keyboard i.now)
    simp only [runAll, run_bind, run_cycle told hm, Machine.run, outcome, Run.result]
    cases hfault : (m.cycle i.keyboard i.now).fault with
    | some fault => simp [hfault]
    | none => simp only [ih _ hcycle, outcome, Run.result, List.append_assoc]

theorem run_load (hm : m.state.WellFormed) (program : List UInt8) :
    (load program).run ⟨m, told⟩ =
      match m.load program with
      | .error fault => some (.error fault, ⟨m, told⟩)
      | .ok loaded => some (.ok (), ⟨loaded, told⟩) := by
  have hfree : m.state.freeMemory? = some m.state.freeMemory := if_pos hm.programStart_le
  have hstart := hm.programStart_le
  unfold Machine.load
  simp only [load, run_bind, run_state]
  rw [hfree, run_need_some]
  dsimp only
  split_ifs with hlong
  · rw [failIf_true hlong, run_fail]
  · rw [failIf_false hlong, run_pure]
    dsimp only
    rw [run_writeBytes]
    · rfl
    · unfold State.freeMemory at hlong
      omega

theorem run_answer (hm : m.state.WellFormed) (call : Call) :
    (answer call).run ⟨m, told⟩ = some (outcome told (m.answer call)) := by
  cases call <;> simp only [answer, Machine.answer]
  case load program =>
    rw [run_load told hm]
    cases m.load program <;> simp [outcome, Run.result]
  case cycle input => exact run_cycle told hm _ _
  case run inputs => exact run_runAll told hm _
  case tick now => exact run_tick told now
  case draw x y rows =>
    rw [run_bind, run_drawSprite told hm]
    cases m.state.drawSprite x y rows <;> simp [outcome, Run.result]
  case press key =>
    rw [run_bind, keyFlag?_eq]
    simp [outcome, Run.result, State.pressKey, Keypad.press]
  case release key =>
    rw [run_bind, keyFlag?_eq]
    simp [outcome, Run.result, State.releaseKey, Keypad.release]
  all_goals simp [outcome, Run.result]

end InPlace

/-! ## Views -/

namespace State

variable {s : State}

theorem WellFormed.freeMemory?_eq (hs : s.WellFormed) : s.freeMemory? = some s.freeMemory :=
  if_pos hs.programStart_le

theorem WellFormed.callStack?_eq (hs : s.WellFormed) : s.callStack? = some s.stack.toList :=
  if_pos (by rw [Array.length_toList]; exact hs.depth)

theorem WellFormed.pixel?_eq (hs : s.WellFormed) (x y : UInt8) :
    s.pixel? x y = some (s.screen.pixel x.toNat y.toNat) := by
  have hscreen := hs.wellFormed_screen
  have hx := toNat_mod_lt x hscreen.width_pos
  have hy := toNat_mod_lt y hscreen.height_pos
  have hbyte := hscreen.index_lt hy (hscreen.div_lt hx)
  have hoffset : (x % s.screen.width).toNat % 8 < 8 := Nat.mod_lt _ (by decide)
  have hshift := shiftRight?_eq 0x80 (toNat_offset_lt (x % s.screen.width).toNat)
  have hwrap : s.screen.pixel x.toNat y.toNat =
      s.screen.pixel (x % s.screen.width).toNat (y % s.screen.height).toNat := by
    simp only [Screen.pixel, UInt8.toNat_mod, Nat.mod_mod]
  rw [pixel?, byteMod?_eq _ hscreen.width_pos, byteMod?_eq _ hscreen.height_pos]
  simp only [Option.bind_eq_bind, Option.bind_some, Array.getElem?_eq_getElem hbyte,
    mod_eight_eq, hshift]
  rw [and_shiftRight_bne_zero _ hoffset, hwrap, Screen.pixel_of_lt _ hx hy, Screen.byte,
    Array.getD_eq_getD_getElem?, Array.getElem?_eq_getElem hbyte]
  rfl

theorem WellFormed.image?_eq (hs : s.WellFormed) : s.image? = some s.image := by
  unfold image? image
  split
  · rename_i hcompact
    obtain ⟨hstack, -, hscreen⟩ := hs.valid.compact hcompact
    have hstart : stackWindow + 2 * compactStackLimit ≤ screenWindow := by decide
    rw [writeWords?_eq]
    · refine if_pos ?_
      rw [Memory.size_write, hs.memory, Array.length_toList, hs.screen]
      exact hscreen
    · rw [Array.length_toList, hs.slots, hs.memory]
      omega
  · rfl

end State

/-! ## Machines that serve a host -/

namespace Machine

/-- A machine that was built from valid settings keeps its buffers at their sizes, its stack
pointer on the stack, and its wait for a key on a register, whatever calls its host has made
and whatever came of them. So nothing that the next call does is out of range, and neither is
a view of its state : the call in place stops nowhere, and leaves behind what `answer` says. -/
theorem serve_stays_in_range (settings : Settings) (h : settings.Valid) (random : Random) :
    ∃ built, Machine.new settings random = .ok built ∧ ∀ (calls : List Call) (m : Machine),
      m = built.serve calls →
        m.state.memory.size = settings.memorySize.toNat ∧
        m.state.stack.slots.size = settings.stackSize.toNat ∧
        m.state.screen.bytes.size = settings.width.toNat * settings.height.toNat / 8 ∧
        -1 ≤ m.state.stack.pointer ∧ m.state.stack.pointer < settings.stackSize.toNat ∧
        (∀ wait, m.state.keyWait = some wait → wait.register.val < 16) ∧
        (∀ call told, (InPlace.answer call).run ⟨m, told⟩ =
          some (InPlace.outcome told (m.answer call))) ∧
        (∀ x y : UInt8, m.state.pixel? x y = some (m.state.screen.pixel x.toNat y.toNat)) ∧
        m.state.callStack? = some m.state.stack.toList ∧
        m.state.freeMemory? = some m.state.freeMemory ∧
        m.state.image? = some m.state.image := by
  obtain ⟨built, hnew, hbuilt, hsettings⟩ := exists_new_eq_ok h random
  refine ⟨built, hnew, fun calls m hserve => ?_⟩
  have hshape : built.state.SameShape m.state := hserve ▸ sameShape_serve built calls
  have hm := hbuilt.of_sameShape hshape
  have hset : m.state.settings = settings := hshape.settings.trans hsettings
  have hdepth : m.state.stack.depth ≤ settings.stackSize.toNat := by
    rw [← hset, ← hm.slots]
    exact hm.depth
  refine ⟨hset ▸ hm.memory, hset ▸ hm.slots, hset ▸ hm.screen, ?_, ?_,
    fun wait _ => wait.register.isLt, fun call told => InPlace.run_answer told hm call,
    hm.pixel?_eq, hm.callStack?_eq, hm.freeMemory?_eq, hm.image?_eq⟩
  · simp only [CallStack.pointer]
    omega
  · simp only [CallStack.pointer]
    omega

/-- After a return without a call, which fails, every pixel can still be looked up. -/
theorem serve_stays_in_range_smallest : Settings.smallest.Valid ∧
    ∃ built, Machine.new .smallest (Random.ofSeed 7) = .ok built ∧
      ∃ pixel, (built.serve [.load [0x00, 0xEE], .cycle ⟨0, 0⟩]).state.pixel? 255 255 =
        some pixel := by
  obtain ⟨built, hnew, hrange⟩ :=
    serve_stays_in_range .smallest Settings.valid_smallest (Random.ofSeed 7)
  obtain ⟨-, -, -, -, -, -, -, hpixel, -⟩ := hrange [.load [0x00, 0xEE], .cycle ⟨0, 0⟩] _ rfl
  exact ⟨Settings.valid_smallest, built, hnew, _, hpixel 255 255⟩

end Machine

end Chip8
