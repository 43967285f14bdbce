import Chip8.Proofs.Instruction
import Mathlib.Data.List.FinRange

/-!
# Waits for a key

An operation that waits for a key takes note of the keys that are up. From then on the cycles do
not fetch. As long as no key is down but those that were down before, a cycle comes to a tick of
the timers (`Machine.cycle_of_held`), so that a wait of any length changes nothing else
(`Machine.idled_run`). The first cycle with another key down stores the lowest such key and ends
the wait (`Machine.cycle_of_pressed`), and the cycle behind it goes on with the next word.

`Machine.cycle_awaits` is all of this for one wait, from the operation to the first word behind it.
-/

namespace Chip8

/-! ## The lowest key -/

namespace Keypad

/-- A key among some, and none of them below it. -/
structure IsLowest (keys : UInt16) (key : Nibble) : Prop where
  mem : keys.toNat.testBit key.val = true
  least : ∀ k : Nibble, k < key → keys.toNat.testBit k.val = false

theorem isLowest_of_lowest? {keys : UInt16} {key : Nibble} (h : lowest? keys = some key) :
    IsLowest keys key := by
  obtain ⟨hmem, n, hn, rfl, hbefore⟩ := List.find?_eq_some_iff_getElem.1 h
  refine ⟨hmem, fun k hk => ?_⟩
  rw [List.getElem_finRange] at hk
  have hnot := hbefore k.val hk
  simpa using hnot

theorem IsLowest.unique {keys : UInt16} {k l : Nibble} (hk : IsLowest keys k)
    (hl : IsLowest keys l) : k = l := by
  rcases lt_trichotomy k l with hlt | heq | hlt
  · have hout := hl.least k hlt
    rw [hk.mem] at hout
    cases hout
  · exact heq
  · have hout := hk.least l hlt
    rw [hl.mem] at hout
    cases hout

/-- There is a lowest key unless there are no keys. -/
theorem lowest?_eq_none_iff {keys : UInt16} : lowest? keys = none ↔ keys = 0 := by
  constructor
  · intro h
    have hbits := List.find?_eq_none.1 h
    refine UInt16.toNat_inj.1 (Nat.eq_of_testBit_eq fun k => ?_)
    rw [show (0 : UInt16).toNat = 0 from rfl, Nat.zero_testBit]
    rcases Nat.lt_or_ge k 16 with hk | hk
    · simpa using hbits ⟨k, hk⟩ (List.mem_finRange _)
    · exact Nat.testBit_lt_two_pow (keys.toNat_lt.trans_le (Nat.pow_le_pow_right (by decide) hk))
  · rintro rfl
    decide

end Keypad

namespace Machine

variable {m : Machine} {x : Nibble} {before : UInt16}

/-! ## Cycles of a wait -/

/-- The machine with a key stored that ends a wait. -/
def stored (m : Machine) (x key : Nibble) : Machine :=
  { m with state := { m.state.setRegister x (UInt8.ofNat key.val) with keyWait := none } }

/-- A cycle that executes no operation : the keys are polled, and the timers count. -/
theorem cycle_of_held {wait : KeyWait} (hwait : m.state.keyWait = some wait) {i : Input}
    (h : i.keyboard &&& wait.mask = 0) :
    m.cycle i.keyboard i.now =
      { machine := ((m.withKeyboard i.keyboard).tick i.now).1
        callbacks := .cycle ::
          List.replicate ((m.withKeyboard i.keyboard).tick i.now).2 .beep } := by
  have hpolled : (m.withKeyboard i.keyboard).state.keyWait = some wait := hwait
  have hnone : Keypad.lowest? ((m.withKeyboard i.keyboard).state.keyboard &&& wait.mask) = none :=
    Keypad.lowest?_eq_none_iff.2 h
  have hadvance :
      (m.withKeyboard i.keyboard).advance = { machine := m.withKeyboard i.keyboard } := by
    rw [advance_of_waiting hpolled, await, hnone]
  rw [cycle_of_advance_ok (by rw [hadvance]), hadvance]
  rfl

theorem cycle_of_pressed {wait : KeyWait} (hwait : m.state.keyWait = some wait) {i : Input}
    (h : i.keyboard &&& wait.mask ≠ 0) : ∃ key, Keypad.IsLowest (i.keyboard &&& wait.mask) key ∧
      let ended := (m.withKeyboard i.keyboard).stored wait.register key
      m.cycle i.keyboard i.now =
        { machine := (ended.tick i.now).1
          callbacks := .cycle :: List.replicate (ended.tick i.now).2 .beep
          log := [.keyStored key wait.register] } := by
  have hpolled : (m.withKeyboard i.keyboard).state.keyWait = some wait := hwait
  obtain ⟨key, hkey⟩ := Option.ne_none_iff_exists'.1 (mt Keypad.lowest?_eq_none_iff.1 h)
  have hsome : Keypad.lowest? ((m.withKeyboard i.keyboard).state.keyboard &&& wait.mask) =
      some key := hkey
  have hadvance : (m.withKeyboard i.keyboard).advance =
      { machine := (m.withKeyboard i.keyboard).stored wait.register key
        log := [.keyStored key wait.register] } := by
    rw [advance_of_waiting hpolled, await, hsome]
    rfl
  refine ⟨key, Keypad.isLowest_of_lowest? hkey, ?_⟩
  rw [cycle_of_advance_ok (by rw [hadvance]), hadvance]
  rfl

/-- A machine that does not wait fetches the word at its program counter, if there is one. -/
theorem fetched_of_not_waiting (h : m.state.keyWait = none) (i : Input) :
    if m.state.memory.size < m.state.pc.toNat + 2 then
      (m.cycle i.keyboard i.now).fault = some (.invalidMemoryAccess m.state.pc 2)
    else (m.cycle i.keyboard i.now).log.head? = some (.fetched m.state.pc m.state.word) := by
  split_ifs with hend
  · have hpolled : (m.withKeyboard i.keyboard).state.keyWait = none := h
    have hfetch : fetch (m.withKeyboard i.keyboard).state =
        .error (.invalidMemoryAccess m.state.pc 2) := if_pos hend
    rw [fault_cycle, advance_of_not_waiting hpolled, step_of_fetch_error hfetch]
  · have hop : m.state.operation? = some (Operation.decode m.state.word) :=
      State.operation?_eq_some_iff.2 ⟨h, m.state.word, fetch_ok hend, rfl⟩
    cases hexecute : (m.withKeyboard i.keyboard).fetched.execute m.state.pc
        (Operation.decode m.state.word) with
    | error fault =>
      rw [cycle_of_operation_error hop hexecute]
      rfl
    | ok effect =>
      rw [cycle_of_operation_ok hop hexecute]
      rfl

/-! ## Waits of any length -/

/-- `m'` is `m`, but for the keys that are down, the timers and their clock. -/
structure Idled (m m' : Machine) : Prop where
  state : m'.state = { m.state with
    keyboard := m'.state.keyboard, delay := m'.state.delay, sound := m'.state.sound }
  random : m'.random = m.random

theorem Idled.refl (m : Machine) : Idled m m := ⟨rfl, rfl⟩

theorem Idled.trans {m m' m'' : Machine} (h : Idled m m') (h' : Idled m' m'') : Idled m m'' := by
  refine ⟨?_, h'.random.trans h.random⟩
  rw [h'.state, h.state]

theorem idled_tick (m : Machine) (keyboard : UInt16) (now : Nat) :
    Idled m ((m.withKeyboard keyboard).tick now).1 := ⟨rfl, rfl⟩

theorem idled_run {wait : KeyWait} (hwait : m.state.keyWait = some wait) {held : List Input}
    (hheld : ∀ i ∈ held, i.keyboard &&& wait.mask = 0) :
    (m.run held).fault = none ∧ (m.run held).log = [] ∧ Idled m (m.run held).machine := by
  induction held generalizing m with
  | nil => exact ⟨rfl, rfl, .refl m⟩
  | cons i held ih =>
    have hcycle := cycle_of_held hwait (hheld i List.mem_cons_self)
    have hidled : Idled m (m.cycle i.keyboard i.now).machine := by
      rw [hcycle]
      exact idled_tick m _ _
    have hwait' : (m.cycle i.keyboard i.now).machine.state.keyWait = some wait := by
      rw [hidled.state]
      exact hwait
    obtain ⟨hok, hlog, hrest⟩ := ih hwait' fun j hj => hheld j (List.mem_cons_of_mem i hj)
    rw [run_of_ok (by rw [hcycle])]
    refine ⟨hok, ?_, hidled.trans hrest⟩
    rw [hlog, hcycle]
    rfl

/-- How a machine waits for a key that was not down `before`, to store it in a register. -/
structure Awaits (m : Machine) (x : Nibble) (before : UInt16) : Prop where
  /-- While there is none, a cycle is a tick of the timers. -/
  held {i : Input} (h : i.keyboard &&& ~~~before = 0) :
    m.cycle i.keyboard i.now =
      { machine := ((m.withKeyboard i.keyboard).tick i.now).1
        callbacks := .cycle ::
          List.replicate ((m.withKeyboard i.keyboard).tick i.now).2 .beep }
  /-- The cycle that finds one stores the lowest and ends the wait, and does nothing else but the
  tick. It fetches no word : the next cycle fetches the one that the program counter was on. -/
  pressed {i : Input} (h : i.keyboard &&& ~~~before ≠ 0) :
    ∃ key, Keypad.IsLowest (i.keyboard &&& ~~~before) key ∧
      let ended := (m.withKeyboard i.keyboard).stored x key
      m.cycle i.keyboard i.now =
        { machine := (ended.tick i.now).1
          callbacks := .cycle :: List.replicate (ended.tick i.now).2 .beep
          log := [.keyStored key x] } ∧
      ∀ j : Input, let next := (ended.tick i.now).1.cycle j.keyboard j.now
        if m.state.memory.size < m.state.pc.toNat + 2 then
          next.fault = some (.invalidMemoryAccess m.state.pc 2)
        else next.log.head? = some (.fetched m.state.pc m.state.word)

theorem awaits_of_waiting (hwait : m.state.keyWait = some ⟨x, ~~~before⟩) : m.Awaits x before where
  held h := cycle_of_held hwait h
  pressed {i} h := by
    obtain ⟨key, hkey, hcycle⟩ := cycle_of_pressed hwait h
    have hnext := fetched_of_not_waiting
      (m := (((m.withKeyboard i.keyboard).stored x key).tick i.now).1) rfl
    exact ⟨key, hkey, hcycle, hnext⟩

/-- The cycle of an operation that waits for a key takes note of the keys that are up. After it and
any number of cycles with no such key down, which do not fail, nothing has changed but the timers
and the keys that are down : the program counter is behind the operation, and the machine waits for
a key to go on with the word there. -/
theorem cycle_awaits (hop : m.state.operation? = some (.awaitKey x)) (start : Input)
    {held : List Input} (hheld : ∀ i ∈ held, i.keyboard &&& ~~~start.keyboard = 0) :
    let begun := m.cycle start.keyboard start.now
    let waited := begun.machine.run held
    begun.fault = none ∧ begun.machine.state.keyWait = some ⟨x, ~~~start.keyboard⟩ ∧
      waited.fault = none ∧ waited.log = [] ∧ begun.machine.Idled waited.machine ∧
      waited.machine.state.pc = m.state.pc + 2 ∧ waited.machine.Awaits x start.keyboard := by
  intro begun waited
  have hbegun : begun = _ := cycle_of_operation_ok hop rfl
  have hwait : begun.machine.state.keyWait = some ⟨x, ~~~start.keyboard⟩ := by
    rw [hbegun]
    rfl
  have hpc : begun.machine.state.pc = m.state.pc + 2 := by
    rw [hbegun]
    rfl
  obtain ⟨hok, hlog, hidled⟩ := idled_run hwait hheld
  have hwaited : waited.machine.state.keyWait = some ⟨x, ~~~start.keyboard⟩ := by
    rw [hidled.state]
    exact hwait
  refine ⟨by rw [hbegun], hwait, hok, hlog, hidled, ?_, awaits_of_waiting hwaited⟩
  rw [hidled.state]
  exact hpc

/-- A wait that begins with the fifth key down. That key is let go and pressed again, and then
two others are down : the lower one is stored, and the next cycle fetches the second word. -/
theorem cycle_awaits_lower : ∃ (m : Machine) (waited : Run) (i j : Input),
    m.state.operation? = some (.awaitKey 3) ∧
    (m.cycle 0x20 0).machine.run [⟨0, 1⟩, ⟨0x20, 2⟩] = waited ∧ waited.fault = none ∧
    i.keyboard = 0x90 ∧ (waited.machine.cycle i.keyboard i.now).log = [.keyStored 4 3] ∧
    ((waited.machine.cycle i.keyboard i.now).machine.cycle j.keyboard j.now).log.head? =
      some (.fetched 0x202 0x6001) := by
  let larger : Settings := { Settings.smallest with memorySize := 0x204 }
  let m : Machine := ⟨.holding larger 0x200 [0xF3, 0x0A, 0x60, 0x01], .ofSeed 0, none⟩
  let i : Input := ⟨0x90, 3⟩
  have hop : m.state.operation? = some (.awaitKey 3) := by decide +kernel
  have hheld : ∀ i ∈ [(⟨0, 1⟩ : Input), ⟨0x20, 2⟩], i.keyboard &&& ~~~0x20 = 0 := by decide
  have hlowest : Keypad.IsLowest (i.keyboard &&& ~~~0x20) 4 := ⟨by decide, by decide⟩
  have hawaits := cycle_awaits hop ⟨0x20, 0⟩ hheld
  dsimp only at hawaits
  generalize hwaited : run _ _ = waited at hawaits
  obtain ⟨-, -, hok, -, -, hpc, hpressed⟩ := hawaits
  obtain ⟨hend, hword⟩ : ¬waited.machine.state.memory.size < 0x202 + 2 ∧
      waited.machine.state.word = 0x6001 := by
    rw [← hwaited]
    decide +kernel
  obtain ⟨key, hkey, hcycle, hnext⟩ := hpressed.pressed (i := i) (by decide)
  obtain rfl := hkey.unique hlowest
  have hfetched := hnext i
  rw [hpc, hword, show m.state.pc + 2 = 0x202 from rfl] at hfetched
  refine ⟨m, waited, i, i, hop, hwaited, hok, rfl, by rw [hcycle], ?_⟩
  rw [hcycle]
  exact (if_neg hend).mp hfetched

end Machine

end Chip8
