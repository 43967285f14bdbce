import Chip8.Proofs.Waiting
import Mathlib.Data.List.Chain

/-!
# Key presses during a wait

A key is pressed in a cycle if it was up at the poll before and is down at the poll of that cycle
(`Keypad.GoesDown`). A wait takes note of the keys that are down when it begins, and from then on
looks at the others alone. One of these that is down was up at the start, so that the first cycle
that finds one down is the first in which one is pressed (`Machine.quiet_iff_of_held`).

`Machine.cycle_awaits_press` : the wait ends in the first cycle in which a key is pressed that was
up when it began, and stores such a key. A key that was down then may be let go and pressed again as
often as one likes; `Machine.cycle_awaits_noted` is a press of it that does not end the wait.
-/

namespace Chip8

namespace Keypad

/-- A key that is up at one poll of the keyboard and down at the next. -/
def GoesDown (before after : UInt16) (key : Nibble) : Prop :=
  before.toNat.testBit key.val = false ∧ after.toNat.testBit key.val = true

instance (before after : UInt16) (key : Nibble) : Decidable (GoesDown before after key) :=
  inferInstanceAs (Decidable (_ ∧ _))

theorem testBit_compl (keys : UInt16) (key : Nibble) :
    (~~~keys).toNat.testBit key.val = !keys.toNat.testBit key.val := by
  have hsize : UInt16.size - 1 - keys.toNat = 2 ^ 16 - (keys.toNat + 1) := by
    rw [UInt16.size]
    omega
  rw [UInt16.toNat_not, hsize, Nat.testBit_two_pow_sub_succ keys.toNat_lt, decide_eq_true key.isLt,
    Bool.true_and]

theorem testBit_and_compl (down noted : UInt16) (key : Nibble) :
    (down &&& ~~~noted).toNat.testBit key.val =
      (down.toNat.testBit key.val && !noted.toNat.testBit key.val) := by
  rw [UInt16.toNat_and, Nat.testBit_and, testBit_compl]

theorem eq_zero_iff_testBit {keys : UInt16} :
    keys = 0 ↔ ∀ key : Nibble, keys.toNat.testBit key.val = false := by
  rw [← lowest?_eq_none_iff, lowest?, List.find?_eq_none]
  simp only [List.mem_finRange, true_implies, Bool.not_eq_true]

/-- No keys are down but noted ones. -/
theorem and_compl_eq_zero_iff {down noted : UInt16} : down &&& ~~~noted = 0 ↔
    ∀ key : Nibble, down.toNat.testBit key.val = true → noted.toNat.testBit key.val = true := by
  rw [eq_zero_iff_testBit]
  refine forall_congr' fun key => ?_
  rw [testBit_and_compl]
  cases down.toNat.testBit key.val <;> cases noted.toNat.testBit key.val <;> decide

end Keypad

namespace Machine

open Keypad

variable {m : Machine} {x : Nibble} {noted : UInt16} {i j : Input}

/-- From one cycle to the next no key goes down but noted ones. -/
def Quiet (noted : UInt16) (i j : Input) : Prop :=
  ∀ key, GoesDown i.keyboard j.keyboard key → noted.toNat.testBit key.val = true

instance (noted : UInt16) (i j : Input) : Decidable (Quiet noted i j) :=
  inferInstanceAs (Decidable (∀ _ : Nibble, _ → _))

theorem not_quiet_iff : ¬Quiet noted i j ↔
    ∃ key, GoesDown i.keyboard j.keyboard key ∧ noted.toNat.testBit key.val = false := by
  simp only [Quiet, not_forall, exists_prop, Bool.not_eq_true]

/-- As long as none but noted keys were down before, none but those go down exactly if none but
those are down. -/
theorem quiet_iff_of_held (hi : i.keyboard &&& ~~~noted = 0) :
    Quiet noted i j ↔ j.keyboard &&& ~~~noted = 0 := by
  rw [and_compl_eq_zero_iff] at hi ⊢
  constructor
  · intro hquiet key hdown
    cases hbefore : i.keyboard.toNat.testBit key.val with
    | true => exact hi key hbefore
    | false => exact hquiet key ⟨hbefore, hdown⟩
  · intro hheld key hkey
    exact hheld key hkey.2

theorem held_of_isChain {held : List Input} (hi : i.keyboard &&& ~~~noted = 0)
    (h : (i :: held).IsChain (Quiet noted)) : ∀ j ∈ i :: held, j.keyboard &&& ~~~noted = 0 := by
  induction held generalizing i with
  | nil =>
    intro j hj
    rwa [List.mem_singleton.1 hj]
  | cons j held ih =>
    obtain ⟨hquiet, hrest⟩ := List.isChain_cons_cons.1 h
    exact List.forall_mem_cons.2 ⟨hi, ih ((quiet_iff_of_held hi).1 hquiet) hrest⟩

/-- As long as none but noted keys were down before, another one that is down went down. -/
theorem goesDown_of_held (hi : i.keyboard &&& ~~~noted = 0) {key : Nibble}
    (hkey : (j.keyboard &&& ~~~noted).toNat.testBit key.val = true) :
    GoesDown i.keyboard j.keyboard key ∧ noted.toNat.testBit key.val = false := by
  rw [testBit_and_compl, Bool.and_eq_true, Bool.not_eq_true'] at hkey
  obtain ⟨hdown, hup⟩ := hkey
  have hbefore : i.keyboard.toNat.testBit key.val ≠ true := fun hwas =>
    Bool.false_ne_true (hup.symm.trans (and_compl_eq_zero_iff.1 hi key hwas))
  exact ⟨⟨Bool.eq_false_of_not_eq_true hbefore, hdown⟩, hup⟩

/-- A wait for a key goes on, through cycles that do not fail, as long as no key goes down but those
that were down when it began. It ends in the first cycle in which another one does, and stores the
number of such a key. -/
theorem cycle_awaits_press (hop : m.state.operation? = some (.awaitKey x)) (start : Input)
    {held : List Input} (hquiet : (start :: held).IsChain (Quiet start.keyboard)) (i : Input) :
    let begun := m.cycle start.keyboard start.now
    let waiting := begun.machine.run held
    let last := (start :: held).getLast (List.cons_ne_nil start held)
    let next := waiting.machine.cycle i.keyboard i.now
    begun.fault = none ∧ waiting.fault = none ∧ next.fault = none ∧
      waiting.machine.state.keyWait = some ⟨x, ~~~start.keyboard⟩ ∧
      (next.machine.state.keyWait = none ↔
        ∃ key, GoesDown last.keyboard i.keyboard key ∧
          start.keyboard.toNat.testBit key.val = false) ∧
      (next.machine.state.keyWait = none →
        ∃ key, GoesDown last.keyboard i.keyboard key ∧
          start.keyboard.toNat.testBit key.val = false ∧
          next.machine.state.register x = UInt8.ofNat key.val) := by
  intro begun waiting last next
  have hbegun : begun = _ := cycle_of_operation_ok hop rfl
  have hwait : begun.machine.state.keyWait = some ⟨x, ~~~start.keyboard⟩ := by
    rw [hbegun]
    rfl
  have hheld := held_of_isChain (and_compl_eq_zero_iff.2 fun _ => id) hquiet
  obtain ⟨hok, -, hidled⟩ := idled_run hwait (List.forall_mem_cons.1 hheld).2
  have hwaiting : waiting.machine.state.keyWait = some ⟨x, ~~~start.keyboard⟩ := by
    rw [hidled.state]
    exact hwait
  have hlast : last.keyboard &&& ~~~start.keyboard = 0 := hheld last (List.getLast_mem _)
  refine ⟨by rw [hbegun], hok, fault_cycle_of_waiting hwaiting _ _, hwaiting, ?_⟩
  rw [← not_quiet_iff, quiet_iff_of_held hlast]
  by_cases hi : i.keyboard &&& ~~~start.keyboard = 0
  · have hnext : next = _ := cycle_of_held hwaiting hi
    have hstill : next.machine.state.keyWait = some ⟨x, ~~~start.keyboard⟩ := by
      rw [hnext]
      exact hwaiting
    rw [hstill]
    exact ⟨⟨nofun, fun h => absurd hi h⟩, nofun⟩
  · obtain ⟨key, hkey, hnext⟩ := cycle_of_pressed hwaiting hi
    have hended : next.machine.state.keyWait = none := by
      rw [show next = _ from hnext]
      rfl
    have hstored : next.machine.state.register x = UInt8.ofNat key.val := by
      rw [show next = _ from hnext]
      exact Vector.getElem_set_self _
    obtain ⟨hpressed, hup⟩ := goesDown_of_held hlast hkey.mem
    exact ⟨⟨fun _ => hi, fun _ => hended⟩, fun _ => ⟨key, hpressed, hup, hstored⟩⟩

/-- A wait that begins with the fifth key down. That key is let go and pressed again, and then the
second one is pressed beside it. -/
theorem cycle_awaits_press_second : ∃ (m : Machine) (start i : Input) (held : List Input),
    m.state.operation? = some (.awaitKey 3) ∧ (start :: held).IsChain (Quiet start.keyboard) ∧
    start.keyboard = 0x20 ∧ held.map Input.keyboard = [0, 0x20] ∧ i.keyboard = 0x24 ∧
    let waiting := (m.cycle start.keyboard start.now).machine.run held
    let next := waiting.machine.cycle i.keyboard i.now
    waiting.machine.state.keyWait = some ⟨3, ~~~0x20⟩ ∧ next.machine.state.keyWait = none ∧
      next.machine.state.register 3 = 2 := by
  let m : Machine := ⟨.holding .smallest 0x200 [0xF3, 0x0A], .ofSeed 0, none⟩
  let start : Input := ⟨0x20, 0⟩
  let held : List Input := [⟨0, 1⟩, ⟨0x20, 2⟩]
  let i : Input := ⟨0x24, 3⟩
  have hop : m.state.operation? = some (.awaitKey 3) := by decide +kernel
  have hquiet : (start :: held).IsChain (Quiet start.keyboard) := by decide
  have honly : ∀ key, GoesDown 0x20 0x24 key → key = 2 := by decide
  obtain ⟨-, -, -, hwaiting, hends, hstores⟩ := cycle_awaits_press hop start hquiet i
  have hended := hends.2 ⟨2, by decide, by decide⟩
  obtain ⟨key, hpressed, -, hstored⟩ := hstores hended
  obtain rfl := honly key hpressed
  exact ⟨m, start, i, held, hop, hquiet, rfl, rfl, rfl, hwaiting, hended, hstored⟩

/-- A key that was down when the wait began is let go and pressed again. No other key goes down or
went down before, and the machine goes on to wait. -/
theorem cycle_awaits_noted : ∃ built m, Machine.new {} (.ofSeed 8) = .ok built ∧
    built.load [0xF3, 0x0A] = .ok m ∧ m.state.operation? = some (.awaitKey 3) ∧
    (∀ key, ¬GoesDown 0x20 0 key) ∧ GoesDown 0 0x20 5 ∧
    let next := (m.cycle 0x20 0).machine.run [⟨0, 0⟩, ⟨0x20, 0⟩]
    next.fault = none ∧ next.machine.state.keyWait = some ⟨3, ~~~0x20⟩ ∧
      next.machine.state.register 3 ≠ 5 := by
  let built : Machine := ⟨.initial {}, .ofSeed 8, none⟩
  let m : Machine := ⟨.holding {} 0x200 [0xF3, 0x0A], .ofSeed 8, none⟩
  have hvalid : Settings.Valid {} := rfl
  have hload : built.load [0xF3, 0x0A] = .ok m := load_initial _ (by decide)
  refine ⟨built, m, new_eq_ok hvalid _, hload, by decide +kernel, by decide, by decide, ?_⟩
  decide +kernel

end Machine

end Chip8
