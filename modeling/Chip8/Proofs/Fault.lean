import Chip8.Proofs.WellFormed

/-!
# When a cycle fails

Whether a cycle fails, and with which fault, can be read off the state before it :
`State.cycleFault` lists the cases in the order in which they are looked for. A machine that
waits for a key does not fail; any other one fails if its word does not lie in memory, if
the word spells no operation, and if its operation asks for room in the call stack or in
memory that is not there.

`fault_cycle_eq` is the statement that these are all the faults there are. Its cases are one
lemma for each check (`faultOf_checkBlock`, `faultOf_drawSprite`) and one for the operations
(`faultOf_execute`).
-/

namespace Chip8

/-- The fault in a result, if it is one. -/
def faultOf {α : Type} : Except Fault α → Option Fault
  | .error fault => some fault
  | .ok _ => none

/-! ## The word at the program counter -/

/-- The bytes of a word, the first one counting 256 times as much as the second. -/
theorem wordOf_eq (high low : UInt8) :
    wordOf high low = UInt16.ofNat (0x100 * high.toNat + low.toNat) := by
  apply UInt16.toNat_inj.1
  have hh := high.toNat_lt
  have hl := low.toNat_lt
  simp only [wordOf, UInt16.toNat_or, UInt16.toNat_shiftLeft, UInt8.toNat_toUInt16,
    UInt16.toNat_ofNat']
  rw [show (8 : UInt16).toNat % 16 = 8 from rfl, Nat.mod_eq_of_lt (by omega : _ < 2 ^ 16),
    Nat.shiftLeft_eq, Nat.mod_eq_of_lt (by omega), Nat.mul_comm,
    ← Nat.two_pow_add_eq_or_of_lt (by omega)]

theorem toNat_wordOf (high low : UInt8) :
    (wordOf high low).toNat = 0x100 * high.toNat + low.toNat := by
  have hh := high.toNat_lt
  have hl := low.toNat_lt
  rw [wordOf_eq, UInt16.toNat_ofNat']
  exact Nat.mod_eq_of_lt (by omega)

/-- A word that spells no operation is kept as it is. -/
theorem eq_of_decode_eq_raw {word w : UInt16} (h : Operation.decode word = .raw w) : w = word := by
  unfold Operation.decode at h
  dsimp only at h
  split at h <;> try cases h
  · unfold Operation.decodeSystem at h
    split_ifs at h
  · unfold Operation.decodeArithmetic at h
    dsimp only at h
    split at h <;> cases h
    rfl
  · unfold Operation.decodeKeypad at h
    dsimp only at h
    split_ifs at h
    cases h
    rfl
  · unfold Operation.decodeMiscellaneous at h
    dsimp only at h
    split_ifs at h
    cases h
    rfl

namespace State

/-- The word at the program counter, its more significant byte first. -/
def word (s : State) : UInt16 :=
  UInt16.ofNat
    (0x100 * (s.memory.read s.pc.toNat).toNat + (s.memory.read (s.pc.toNat + 1)).toNat)

/-! ## Faults, from the state -/

/-- The fault of `length` bytes at the index register that may not begin below `least`. That
they run past the last address is told before that they run past memory. -/
def blockFault (s : State) (length least : Nat) : Option Fault :=
  if 0x10000 ≤ s.index.toNat + length then
    some (.arithmeticOverflow s.index (UInt16.ofNat length))
  else if s.memory.size < s.index.toNat + length ∨ s.index.toNat < least then
    some (.invalidMemoryAccess s.index (UInt16.ofNat length))
  else none

/-- The fault of a word that is executed. Register blocks and digits keep off the reserved
part of memory; a sprite may lie anywhere. -/
def wordFault (s : State) (word : UInt16) : Option Fault :=
  match Operation.decode word with
  | .raw _ => some (.invalidInstruction word s.pc)
  | .ret => if s.stack.depth = 0 then some .stackOverflow else none
  | .call _ => if s.stack.depth = s.stack.capacity then some .stackOverflow else none
  | .storeDecimal _ => s.blockFault 3 programStart
  | .storeRegisters x => s.blockFault (x.val + 1) programStart
  | .loadRegisters x => s.blockFault (x.val + 1) programStart
  | .draw _ _ rows => s.blockFault rows.val 0
  | _ => none

/-- The fault of the next cycle. -/
def cycleFault (s : State) : Option Fault :=
  if s.keyWait.isSome then none
  else if s.memory.size < s.pc.toNat + 2 then some (.invalidMemoryAccess s.pc 2)
  else s.wordFault s.word

/-! ## Checks -/

theorem faultOf_checkBlock (s : State) (length : Nat) :
    faultOf (s.checkBlock length) = s.blockFault length programStart := by
  unfold checkBlock blockFault
  dsimp only
  split_ifs <;> rfl

theorem faultOf_drawSprite (s : State) (x y rows : UInt8) :
    faultOf (s.drawSprite x y rows) = s.blockFault rows.toNat 0 := by
  have hlength : rows.toUInt16 = UInt16.ofNat rows.toNat := UInt16.toNat_inj.1 (by simp)
  unfold drawSprite blockFault
  dsimp only
  rw [hlength]
  split_ifs <;> first | rfl | omega

end State

namespace Machine

variable {m : Machine}

theorem fetch_ok {s : State} (h : ¬s.memory.size < s.pc.toNat + 2) : fetch s = .ok s.word := by
  rw [fetch, if_neg h, wordOf_eq, State.word]

/-- Executing a word that has been fetched fails as the state before the fetch says. -/
theorem faultOf_execute (hm : m.state.WellFormed) (word : UInt16) :
    faultOf (m.fetched.execute m.state.pc (Operation.decode word)) = m.state.wordFault word := by
  unfold State.wordFault
  cases hop : Operation.decode word <;> simp only [execute]
  case raw w =>
    rw [eq_of_decode_eq_raw hop]
    rfl
  case ret =>
    unfold CallStack.pop?
    show _ = if m.fetched.state.stack.depth = 0 then _ else _
    split_ifs <;> rfl
  case call target =>
    have hdepth : m.fetched.state.stack.depth ≤ m.fetched.state.stack.capacity := hm.depth
    unfold CallStack.push?
    show _ = if m.fetched.state.stack.depth = m.fetched.state.stack.capacity then _ else _
    split_ifs <;> first | rfl | omega
  case draw x y rows =>
    have hrows : (UInt8.ofNat rows.val).toNat = rows.val := by
      rw [UInt8.toNat_ofNat']
      omega
    have hdraw := State.faultOf_drawSprite m.fetched.state (m.fetched.state.register x)
      (m.fetched.state.register y) (UInt8.ofNat rows.val)
    rw [hrows] at hdraw
    refine Eq.trans ?_ hdraw
    split <;> simp only [*] <;> rfl
  case storeDecimal x =>
    refine Eq.trans ?_ (State.faultOf_checkBlock m.fetched.state 3)
    split <;> simp only [*] <;> rfl
  case storeRegisters x =>
    refine Eq.trans ?_ (State.faultOf_checkBlock m.fetched.state (x.val + 1))
    split <;> simp only [*] <;> rfl
  case loadRegisters x =>
    refine Eq.trans ?_ (State.faultOf_checkBlock m.fetched.state (x.val + 1))
    split <;> simp only [*] <;> rfl
  all_goals rfl

theorem fault_step (hm : m.state.WellFormed) : m.step.fault =
    if m.state.memory.size < m.state.pc.toNat + 2 then some (.invalidMemoryAccess m.state.pc 2)
    else m.state.wordFault m.state.word := by
  by_cases h : m.state.memory.size < m.state.pc.toNat + 2
  · rw [if_pos h, step, fetch, if_pos h]
  · rw [if_neg h, step, fetch_ok h, ← faultOf_execute hm]
    dsimp only
    rw [fetched]
    split <;> simp [*, faultOf]

/-- A cycle fails exactly in the cases of `State.cycleFault`, with the fault of the first of
them that applies, whatever keys are down and whatever the time. -/
theorem fault_cycle_eq (hm : m.state.WellFormed) (keyboard : UInt16) (now : Nat) :
    (m.cycle keyboard now).fault = m.state.cycleFault := by
  rw [fault_cycle, State.cycleFault]
  cases hwait : m.state.keyWait with
  | some wait =>
    rw [advance_of_waiting (show (m.withKeyboard keyboard).state.keyWait = some wait from hwait),
      await_fault]
    rfl
  | none =>
    have hpolled := hm.of_sameShape (m.sameShape_withKeyboard keyboard)
    rw [advance_of_not_waiting (show (m.withKeyboard keyboard).state.keyWait = none from hwait),
      fault_step hpolled]
    rfl

/-- Digits may not go to the reserved part of memory, to which the index register of a new
machine points. -/
theorem fault_cycle_storeDecimal : ∃ m : Machine, m.state.WellFormed ∧
    (m.cycle 0 0).fault = some (.invalidMemoryAccess 0 3) := by
  let m : Machine := ⟨.holding .smallest 0x200 [0xF0, 0x33], .ofSeed 0, none⟩
  have hm : m.state.WellFormed := .holding Settings.valid_smallest _ _
  refine ⟨m, hm, ?_⟩
  rw [fault_cycle_eq hm]
  decide +kernel

end Machine

end Chip8
