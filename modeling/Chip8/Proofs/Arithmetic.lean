import Chip8.Proofs.Footprint

/-!
# Carries, borrows and lost bits

Five operations of group `8` compute a byte of two registers and set the flag register besides.
An equation of integers says what the byte and the flag are worth (`Arithmetic.Balances`) : a carry
is worth 256, a flag that is not set a borrow of 256, and a bit that a shift loses is the flag. A
byte and a bit have no other way to meet it (`Arithmetic.Balances.unique`), so that the equation
says all that there is to know of them.

The registers are read before any of them is written, and the flag is written behind the result.
`Machine.cycle_balances` : for all registers, also two that are the same and the flag register as
one of them, the flag is in its register after the cycle, and the result in its own if that is
another one.
-/

namespace Chip8

/-- The operations on two registers that set the flag. -/
inductive Arithmetic where
  /-- `8XY4` -/
  | add
  /-- `8XY5` -/
  | sub
  /-- `8XY6` -/
  | shiftRight
  /-- `8XY7` -/
  | subFrom
  /-- `8XYE` -/
  | shiftLeft
  deriving DecidableEq, Repr

namespace Arithmetic

/-- The operation on two registers. -/
def operation (a : Arithmetic) (x y : Nibble) : Operation :=
  match a with
  | add => .add x y
  | sub => .sub x y
  | shiftRight => .shiftRight x y
  | subFrom => .subFrom x y
  | shiftLeft => .shiftLeft x y

/-- The last digit of its words. -/
def digit : Arithmetic → Nibble
  | add => Nibble.ofNat 0x4
  | sub => Nibble.ofNat 0x5
  | shiftRight => Nibble.ofNat 0x6
  | subFrom => Nibble.ofNat 0x7
  | shiftLeft => Nibble.ofNat 0xE

/-- The word that spells it. -/
def word (a : Arithmetic) (x y : Nibble) : UInt16 :=
  UInt16.ofNat (0x8000 + 0x100 * x.val + 0x10 * y.val + a.digit.val)

theorem toNat_word (a : Arithmetic) (x y : Nibble) :
    (a.word x y).toNat = 0x8000 + 0x100 * x.val + 0x10 * y.val + a.digit.val := by
  have hx := x.isLt
  have hy := y.isLt
  have hdigit := a.digit.isLt
  rw [word, UInt16.toNat_ofNat', Nat.mod_eq_of_lt (by omega)]

/-- The word is spelled with the digits of its registers and its own. -/
theorem decode_word (a : Arithmetic) (x y : Nibble) :
    Operation.decode (a.word x y) = a.operation x y := by
  have hword := a.toNat_word x y
  have hx := x.isLt
  have hy := y.isLt
  have hdigit := a.digit.isLt
  have hgroup : Fin.ofNat 16 ((a.word x y).toNat / 0x1000) = 0x8 := Fin.ext (by
    rw [hword, Fin.val_ofNat]
    show _ = 8
    omega)
  have hxOf : Operation.xOf (a.word x y) = x := Fin.ext (by
    show (a.word x y).toNat / 0x100 % 16 = _
    omega)
  have hyOf : Operation.yOf (a.word x y) = y := Fin.ext (by
    show (a.word x y).toNat / 0x10 % 16 = _
    omega)
  have hnOf : Operation.nOf (a.word x y) = a.digit := Fin.ext (by
    show (a.word x y).toNat % 16 = _
    omega)
  have harithmetic : Operation.decode (a.word x y) = Operation.decodeArithmetic (a.word x y) := by
    simp only [Operation.decode, hgroup]
  rw [harithmetic, Operation.decodeArithmetic, hxOf, hyOf, hnOf]
  cases a <;> rfl

/-! ## Results and flags -/

/-- What the operation computes of the two registers; a shift has one source. -/
def result (a : Arithmetic) (vx vy source : UInt8) : UInt8 :=
  match a with
  | add => vx + vy
  | sub => vx - vy
  | shiftRight => source >>> 1
  | subFrom => vy - vx
  | shiftLeft => source <<< 1

/-- Whether it sets the flag. -/
def flag (a : Arithmetic) (vx vy source : UInt8) : Bool :=
  match a with
  | add => 256 ≤ vx.toNat + vy.toNat
  | sub => vy ≤ vx
  | shiftRight => source &&& 1 == 1
  | subFrom => vx ≤ vy
  | shiftLeft => source >>> 7 == 1

/-- What a result `r` and a flag `f` have to be worth. -/
def Balances (a : Arithmetic) (vx vy source r f : Int) : Prop :=
  match a with
  | add => r + 256 * f = vx + vy
  | sub => r + vy = vx + 256 * (1 - f)
  | shiftRight => 2 * r + f = source
  | subFrom => r + vx = vy + 256 * (1 - f)
  | shiftLeft => r + 256 * f = 2 * source

/-- One byte and one bit balance the operands, and no others. -/
theorem Balances.unique {a : Arithmetic} {vx vy source : Int} {r f r' f' : Nat}
    (h : a.Balances vx vy source r f) (h' : a.Balances vx vy source r' f') (hr : r ≤ 255)
    (hf : f ≤ 1) (hr' : r' ≤ 255) (hf' : f' ≤ 1) : r' = r ∧ f' = f := by
  cases a <;> simp only [Balances] at h h' <;> omega

/-- A difference is short of the true one by 256 if there was a borrow. -/
theorem toNat_sub_add (a b : UInt8) :
    ((a - b).toNat : Int) + b.toNat =
      a.toNat + 256 * (1 - ((if b ≤ a then 1 else 0 : Nat) : Int)) := by
  have ha := a.toNat_lt
  have hb := b.toNat_lt
  simp only [UInt8.toNat_sub, UInt8.le_iff_toNat_le]
  split <;> omega

/-- A byte is twice its half, and its last bit. -/
theorem toNat_shiftRight_one (b : UInt8) :
    2 * ((b >>> 1).toNat : Int) + ((if b &&& 1 == 1 then 1 else 0 : Nat) : Int) = b.toNat := by
  have hhalf : (b >>> 1).toNat = b.toNat / 2 := by simp [Nat.shiftRight_eq_div_pow]
  have hlast : (b &&& 1).toNat = b.toNat % 2 := by simp
  have hset : (b &&& 1 == 1) = true ↔ b.toNat % 2 = 1 := by
    rw [beq_iff_eq, ← UInt8.toNat_inj, hlast]
    rfl
  simp only [hhalf, hset]
  split <;> omega

/-- Twice a byte is a byte, and 256 if its first bit is set. -/
theorem toNat_shiftLeft_one (b : UInt8) :
    ((b <<< 1).toNat : Int) + 256 * ((if b >>> 7 == 1 then 1 else 0 : Nat) : Int) =
      2 * b.toNat := by
  have hlt := b.toNat_lt
  have hdouble : (b <<< 1).toNat = b.toNat * 2 % 256 := by simp [Nat.shiftLeft_eq]
  have hfirst : (b >>> 7).toNat = b.toNat / 128 := by simp [Nat.shiftRight_eq_div_pow]
  have hset : (b >>> 7 == 1) = true ↔ b.toNat / 128 = 1 := by
    rw [beq_iff_eq, ← UInt8.toNat_inj, hfirst]
    rfl
  simp only [hdouble, hset]
  split <;> omega

/-- What the operation computes balances its operands. -/
theorem balances (a : Arithmetic) (vx vy source : UInt8) :
    a.Balances vx.toNat vy.toNat source.toNat (a.result vx vy source).toNat
      (if a.flag vx vy source then 1 else 0 : Nat) := by
  have hx := vx.toNat_lt
  have hy := vy.toNat_lt
  cases a <;> simp only [Balances, result, flag, decide_eq_true_eq]
  case add =>
    rw [UInt8.toNat_add]
    split <;> omega
  case sub => exact toNat_sub_add vx vy
  case shiftRight => exact toNat_shiftRight_one source
  case subFrom => exact toNat_sub_add vy vx
  case shiftLeft => exact toNat_shiftLeft_one source

/-! ## Registers -/

/-- The byte that a shift of `VX` reads : `VY` in legacy mode, and else `VX` itself. -/
def source (s : State) (x y : Nibble) : UInt8 := if s.legacy then s.register y else s.register x

/-- `t` has the registers of `s` behind the operation, with the result `r` and the flag `f` that
balance the operands. The flag register holds the flag, also where it is `VX`. -/
structure Computed (a : Arithmetic) (x y : Nibble) (s t : State) (r f : Nat) : Prop where
  result_le : r ≤ 255
  flag_le : f ≤ 1
  balances : a.Balances (s.register x).toNat (s.register y).toNat (source s x y).toNat r f
  unique : ∀ r' f' : Nat, r' ≤ 255 → f' ≤ 1 →
    a.Balances (s.register x).toNat (s.register y).toNat (source s x y).toNat r' f' →
      r' = r ∧ f' = f
  flag : (t.register State.flagRegister).toNat = f
  result : x ≠ State.flagRegister → (t.register x).toNat = r
  others : ∀ k, k ≠ x → k ≠ State.flagRegister → t.register k = s.register k

variable {a : Arithmetic} {x y : Nibble} {s t u : State} {r f : Nat}

/-- Nothing but the registers counts. -/
theorem Computed.of_registers (h : a.Computed x y s t r f) (hreg : u.registers = t.registers) :
    a.Computed x y s u r f := by
  have hregister : ∀ k, u.register k = t.register k := fun k => by
    simp only [State.register, hreg]
  exact { h with
    flag := (congrArg UInt8.toNat (hregister _)).trans h.flag
    result := fun hx => (congrArg UInt8.toNat (hregister _)).trans (h.result hx)
    others := fun k hx hflag => (hregister k).trans (h.others k hx hflag) }

/-- What the operation leaves in the registers of a state. -/
def apply (a : Arithmetic) (x y : Nibble) (s : State) : State :=
  (s.setRegister x (a.result (s.register x) (s.register y) (source s x y))).setFlag
    (a.flag (s.register x) (s.register y) (source s x y))

theorem execute_operation (a : Arithmetic) (x y : Nibble) (m : Machine) (address : UInt16) :
    m.execute address (a.operation x y) =
      .ok { machine := { m with state := a.apply x y m.state } } := by
  cases a <;> rfl

theorem computed_apply (a : Arithmetic) (x y : Nibble) (s : State) :
    ∃ r f, a.Computed x y s (a.apply x y s) r f := by
  let result := a.result (s.register x) (s.register y) (source s x y)
  let flag := a.flag (s.register x) (s.register y) (source s x y)
  let bit : Nat := if flag then 1 else 0
  have hbyte : result.toNat ≤ 255 := Nat.le_of_lt_succ result.toNat_lt
  have hbit : bit ≤ 1 := by
    show (if flag then 1 else 0) ≤ 1
    split <;> omega
  have hbalances := a.balances (s.register x) (s.register y) (source s x y)
  exact
    ⟨result.toNat, bit,
      { result_le := hbyte
        flag_le := hbit
        balances := hbalances
        unique := fun _ _ hr hf h => hbalances.unique h hbyte hbit hr hf
        flag := by
          have hset : (a.apply x y s).register State.flagRegister = if flag then 1 else 0 :=
            Vector.getElem_set_self _
          show _ = if flag then 1 else 0
          rw [hset]
          split <;> rfl
        result := fun hx => by
          have hset : (a.apply x y s).register x = (s.setRegister x result).register x :=
            State.register_setRegister_of_ne _ hx _
          have hresult : (s.setRegister x result).register x = result := Vector.getElem_set_self _
          rw [hset, hresult]
        others := fun _ hx hflag => State.register_setFlag_setRegister s hx hflag result flag }⟩

end Arithmetic

namespace Machine

variable {m : Machine} {a : Arithmetic} {x y : Nibble}

/-- The timers that count behind the operation leave the registers alone. -/
theorem cycle_of_arithmetic (hop : m.state.operation? = some (a.operation x y)) (keyboard : UInt16)
    (now : Nat) : (m.cycle keyboard now).fault = none ∧
      (m.cycle keyboard now).machine.state.registers = (a.apply x y m.state).registers := by
  have hexecute := a.execute_operation x y (m.withKeyboard keyboard).fetched m.state.pc
  rw [cycle_of_operation_ok hop hexecute]
  exact ⟨rfl, by cases a <;> rfl⟩

/-- The operations that set the flag, with what their words spell. For all registers that they are
given, also one and the same and the flag register, and whatever is in them, the operation does not
fail. It puts into the flag register the one flag, and into `VX` if that is another register the
one byte that balance what was in the registers before, a shift in legacy mode that of `VY` alone;
all others keep what they have. A cycle that executes the operation does the same. -/
theorem cycle_balances (a : Arithmetic) (x y : Nibble) :
    Operation.decode (a.word x y) = a.operation x y ∧
    ∀ m : Machine,
      (∀ address, ∃ t r f, a.Computed x y m.state t r f ∧
        m.execute address (a.operation x y) = .ok { machine := { m with state := t } }) ∧
      ∀ keyboard now, m.state.operation? = some (a.operation x y) →
        (m.cycle keyboard now).fault = none ∧
          ∃ r f, a.Computed x y m.state (m.cycle keyboard now).machine.state r f := by
  refine ⟨a.decode_word x y, fun m => ?_⟩
  obtain ⟨r, f, hcomputed⟩ := a.computed_apply x y m.state
  refine ⟨fun address => ⟨_, r, f, hcomputed, a.execute_operation x y m address⟩,
    fun keyboard now hop => ?_⟩
  obtain ⟨hok, hregisters⟩ := cycle_of_arithmetic hop keyboard now
  exact ⟨hok, r, f, hcomputed.of_registers hregisters⟩

/-- A shift in legacy mode into the flag register : half of five is lost there, and the last bit
stays. -/
theorem cycle_balances_shiftRight : ∃ m : Machine, m.state.legacy = true ∧
    m.state.register 2 = 5 ∧ m.state.operation? = some (Arithmetic.shiftRight.operation 0xF 2) ∧
    (m.cycle 0 0).fault = none ∧ (m.cycle 0 0).machine.state.register 0xF = 1 ∧
    (m.cycle 0 0).machine.state.register 2 = 5 := by
  let built : State := .holding { Settings.smallest with legacyMode := true } 0x200 [0x8F, 0x26]
  let m : Machine := ⟨built.setRegister 2 5, .ofSeed 0, none⟩
  have hop : m.state.operation? = some (Arithmetic.shiftRight.operation 0xF 2) := by
    decide +kernel
  have hsource : Arithmetic.source m.state 0xF 2 = 5 := by decide +kernel
  obtain ⟨-, hcycle⟩ := cycle_balances .shiftRight 0xF 2
  obtain ⟨hok, r, f, hcomputed⟩ := (hcycle m).2 0 0 hop
  have hbalances := hcomputed.balances
  have hle := hcomputed.flag_le
  rw [hsource] at hbalances
  have hbit : f = 1 := by
    simp only [Arithmetic.Balances] at hbalances
    have hfive : ((5 : UInt8).toNat : Int) = 5 := rfl
    omega
  refine ⟨m, rfl, by decide +kernel, hop, hok, UInt8.toNat_inj.1 ?_, ?_⟩
  · exact hcomputed.flag.trans hbit
  · rw [hcomputed.others 2 (by decide) (by decide)]
    decide +kernel

end Machine

end Chip8
