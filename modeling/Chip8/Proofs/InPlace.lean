import Chip8.Proofs.Host

/-!
# Changing a machine in place

`Machine.execute` computes the machine after an operation and hands it over whole. Here the
same operations are carried out step by step on a machine that is changed at once : a check
that fails leaves behind whatever was changed before it, and a callback is told where it
stands among the changes.

A computation in place also stops where an index lies outside its buffer, where a copy does
not fit, and where a subtraction, a remainder, an addition of bytes or a shift has no result
in its type (`need`). `InPlace.answer` are the calls of a host in this form. That no call
ever stops so, and that it leaves behind what `Machine.answer` says, is proved of
well-formed machines in `Chip8.Proofs.InRange`.
-/

namespace Chip8

/-! ## Partial arithmetic -/

namespace Partial

/-- The difference of two numbers, if it is none below zero. -/
def sub? (a b : Nat) : Option Nat := if b ≤ a then some (a - b) else none

/-- The remainder of a division, if it is none by zero. -/
def mod? (a b : Nat) : Option Nat := if b = 0 then none else some (a % b)

/-- The remainder of a division of bytes, if it is none by zero. -/
def byteMod? (a b : UInt8) : Option UInt8 := if b = 0 then none else some (a % b)

/-- The sum of two bytes, if it is a byte. -/
def byteAdd? (a b : UInt8) : Option UInt8 :=
  if a.toNat + b.toNat < 0x100 then some (a + b) else none

/-- The difference of two bytes, if it is a byte. -/
def byteSub? (a b : UInt8) : Option UInt8 := if b ≤ a then some (a - b) else none

/-- A byte shifted to the left by less than its length. -/
def shiftLeft? (a n : UInt8) : Option UInt8 := if n < 8 then some (a <<< n) else none

/-- A byte shifted to the right by less than its length. -/
def shiftRight? (a n : UInt8) : Option UInt8 := if n < 8 then some (a >>> n) else none

/-- The bit of a key, if its place is one of a word. -/
def keyFlag? (key : UInt8) : Option UInt16 :=
  if key &&& 0xF < 16 then some (Keypad.flag key) else none

/-- The first items of a list, if there are as many. -/
def take? {α : Type} (items : List α) (count : Nat) : Option (List α) :=
  if count ≤ items.length then some (items.take count) else none

/-- The bytes of a block, if all of it lies in memory. -/
def slice? (m : Memory) (address length : Nat) : Option (List UInt8) :=
  if address + length ≤ m.size then some (m.slice address length) else none

/-- Memory with a block written, if all of it lies in memory. -/
def write? (m : Memory) (address : Nat) (bytes : List UInt8) : Option Memory :=
  if address + bytes.length ≤ m.size then some (m.write address bytes) else none

/-- Memory with words written after each other, each as two bytes. -/
def writeWords? (m : Memory) (address : Nat) : List UInt16 → Option Memory
  | [] => some m
  | w :: ws => do writeWords? (← write? m address (State.wordBytes w)) (address + 2) ws

/-! ### Where it has a result -/

variable {a b n : UInt8}

theorem toNat_mod_lt (a : UInt8) (h : 0 < b.toNat) : (a % b).toNat < b.toNat := by
  rw [UInt8.toNat_mod]
  exact Nat.mod_lt _ h

theorem mod_eight_eq (a : UInt8) : a % 8 = UInt8.ofNat (a.toNat % 8) := by
  refine UInt8.toNat_inj.1 ?_
  rw [UInt8.toNat_mod, UInt8.toNat_ofNat', show (8 : UInt8).toNat = 8 from rfl]
  omega

theorem toNat_offset_lt (x : Nat) : (UInt8.ofNat (x % 8)).toNat < 8 := by
  rw [UInt8.toNat_ofNat']
  omega

theorem byteMod?_eq (a : UInt8) (h : 0 < b.toNat) : byteMod? a b = some (a % b) :=
  if_neg fun h0 => Nat.ne_of_gt h (congrArg UInt8.toNat h0)

theorem byteAdd?_one (h : a.toNat < b.toNat) : byteAdd? a 1 = some (a + 1) := by
  have hb := b.toNat_lt
  refine if_pos ?_
  show a.toNat + 1 < 0x100
  omega

/-- A row below a row of the screen is one that the screen has, or its first. -/
theorem toNat_add_one_mod (h : a.toNat < b.toNat) :
    ((a + 1) % b).toNat = (a.toNat + 1) % b.toNat := by
  have hb := b.toNat_lt
  rw [UInt8.toNat_mod, UInt8.toNat_add, show (1 : UInt8).toNat = 1 from rfl,
    Nat.mod_eq_of_lt (by omega : a.toNat + 1 < 2 ^ 8)]

theorem shiftRight?_eq (a : UInt8) (h : n.toNat < 8) : shiftRight? a n = some (a >>> n) :=
  if_pos (UInt8.lt_iff_toNat_lt.2 h)

theorem byteSub?_eight (h : n.toNat < 8) : byteSub? 8 n = some (8 - n) :=
  if_pos (UInt8.le_iff_toNat_le.2 (Nat.le_of_lt h))

/-- What crosses the end of a byte is shifted by less than eight if it begins behind the
first bit. -/
theorem shiftLeft?_eight_sub (a : UInt8) (h : n.toNat < 8) (h0 : n ≠ 0) :
    shiftLeft? a (8 - n) = some (a <<< (8 - n)) := by
  have hpos : 0 < n.toNat := Nat.pos_of_ne_zero fun hn => h0 (UInt8.toNat_inj.1 hn)
  refine if_pos (UInt8.lt_iff_toNat_lt.2 ?_)
  rw [UInt8.toNat_sub_of_le _ _ (UInt8.le_iff_toNat_le.2 (Nat.le_of_lt h))]
  exact Nat.sub_lt (by decide) hpos

/-- The registers of a block are registers. -/
theorem take?_registers (s : State) (x : Nibble) :
    take? s.registers.toList (x.val + 1) = some (s.registers.toList.take (x.val + 1)) :=
  if_pos (by rw [Vector.length_toList]; exact x.isLt)

theorem keyFlag?_eq (key : UInt8) : keyFlag? key = some (Keypad.flag key) := by
  refine if_pos ?_
  rw [UInt8.lt_iff_toNat_lt, UInt8.toNat_and]
  exact Nat.lt_of_le_of_lt Nat.and_le_right (by decide)

/-- Words that fit memory are written as their bytes at once. -/
theorem writeWords?_eq (m : Memory) (address : Nat) (words : List UInt16)
    (h : address + 2 * words.length ≤ m.size) :
    writeWords? m address words = some (m.write address (words.flatMap State.wordBytes)) := by
  induction words generalizing m address with
  | nil => rfl
  | cons w ws ih =>
    rw [List.length_cons] at h
    have hwrite : write? m address (State.wordBytes w) =
        some (m.write address (State.wordBytes w)) :=
      if_pos (by simp only [State.wordBytes, List.length_cons, List.length_nil]; omega)
    rw [writeWords?, hwrite, List.flatMap_cons, Memory.write_append]
    exact ih _ _ (by rw [Memory.size_write]; omega)

end Partial

open Partial

/-! ## Views -/

namespace State

/-- `State.freeMemory`, where it is no negative number. -/
def freeMemory? (s : State) : Option Nat := sub? s.memory.size programStart

/-- `CallStack.toList`, where all slots in use are slots. -/
def callStack? (s : State) : Option (List UInt16) := take? s.stack.slots.toList s.stack.depth

/-- `Screen.pixel`, where the screen has the byte of the pixel. -/
def pixel? (s : State) (x y : UInt8) : Option Bool := do
  let x ← byteMod? x s.screen.width
  let y ← byteMod? y s.screen.height
  let byte ← s.screen.bytes[y.toNat * s.screen.byteWidth + x.toNat / 8]?
  let mask ← shiftRight? 0x80 (x % 8)
  return byte &&& mask != 0

/-- `State.image`, where both windows lie in memory. -/
def image? (s : State) : Option Memory :=
  if s.settings.compactLayout then do
    let image ← writeWords? s.memory stackWindow s.stack.slots.toList
    write? image screenWindow s.screen.bytes.toList
  else some s.memory

end State

/-! ## Computations in place -/

/-- A machine that is being changed, and what its platform has been told. -/
structure Progress where
  /-- The machine as it stands. -/
  machine : Machine
  /-- The callbacks so far, in order. -/
  callbacks : List Callback

/-- A computation that changes a machine in place. It has no result where it leaves the range
of a buffer or of a number; otherwise it returns or fails, in either case with everything
that it has changed and told up to there. -/
def InPlace (α : Type) := Progress → Option (Except Fault α × Progress)

namespace InPlace

instance : Monad InPlace where
  pure a := fun p => some (.ok a, p)
  bind c f := fun p =>
    match c p with
    | none => none
    | some (.error fault, q) => some (.error fault, q)
    | some (.ok a, q) => f a q

/-- Carries a computation out. -/
def run {α : Type} (c : InPlace α) (p : Progress) : Option (Except Fault α × Progress) := c p

/-- Stops with a fault. -/
def fail {α : Type} (fault : Fault) : InPlace α := fun p => some (.error fault, p)

/-- Goes on only if a value is there. -/
def need {α : Type} (value : Option α) : InPlace α := fun p => value.map fun a => (.ok a, p)

/-- The machine as it stands. -/
def machine : InPlace Machine := fun p => some (.ok p.machine, p)

/-- The state as it stands. -/
def state : InPlace State := fun p => some (.ok p.machine.state, p)

/-- Changes the machine. -/
def change (f : Machine → Machine) : InPlace Unit :=
  fun p => some (.ok (), { p with machine := f p.machine })

/-- Changes the state. -/
def update (f : State → State) : InPlace Unit := change fun m => { m with state := f m.state }

/-- Tells the platform. -/
def tell (callback : Callback) : InPlace Unit :=
  fun p => some (.ok (), { p with callbacks := p.callbacks ++ [callback] })

/-- Fails if a condition holds. -/
def failIf (condition : Prop) [Decidable condition] (fault : Fault) : InPlace Unit :=
  if condition then fail fault else pure ()

variable {α β : Type}

@[simp] theorem run_pure (a : α) (p : Progress) : (pure a : InPlace α).run p = some (.ok a, p) :=
  rfl

theorem run_bind (c : InPlace α) (f : α → InPlace β) (p : Progress) :
    (c >>= f).run p =
      match c.run p with
      | none => none
      | some (.error fault, q) => some (.error fault, q)
      | some (.ok a, q) => (f a).run q := rfl

@[simp] theorem run_fail (fault : Fault) (p : Progress) :
    (fail fault : InPlace α).run p = some (.error fault, p) := rfl

@[simp] theorem run_need_some (a : α) (p : Progress) : (need (some a)).run p = some (.ok a, p) :=
  rfl

@[simp] theorem run_machine (p : Progress) : machine.run p = some (.ok p.machine, p) := rfl

@[simp] theorem run_state (p : Progress) : state.run p = some (.ok p.machine.state, p) := rfl

@[simp] theorem run_change (f : Machine → Machine) (p : Progress) :
    (change f).run p = some (.ok (), { p with machine := f p.machine }) := rfl

@[simp] theorem run_update (f : State → State) (p : Progress) :
    (update f).run p =
      some (.ok (), { p with machine := { p.machine with state := f p.machine.state } }) := rfl

@[simp] theorem run_tell (callback : Callback) (p : Progress) :
    (tell callback).run p = some (.ok (), { p with callbacks := p.callbacks ++ [callback] }) := rfl

@[simp] theorem failIf_true {condition : Prop} [Decidable condition] (h : condition)
    (fault : Fault) : failIf condition fault = fail fault := if_pos h

@[simp] theorem failIf_false {condition : Prop} [Decidable condition] (h : ¬condition)
    (fault : Fault) : failIf condition fault = pure () := if_neg h

/-! ## Memory, screen and keys -/

/-- A byte of memory. -/
def readByte (address : Nat) : InPlace UInt8 := do need (← state).memory[address]?

/-- Writes a block of bytes. -/
def writeBytes (address : Nat) (bytes : List UInt8) : InPlace Unit := do
  let memory ← need (write? (← state).memory address bytes)
  update fun s => { s with memory := memory }

/-- The address of the block of `length` bytes at the index register, if a program may touch
it. -/
def block (length : Nat) : InPlace Nat := do
  let s ← state
  failIf (0x10000 ≤ s.index.toNat + length) (.arithmeticOverflow s.index (UInt16.ofNat length))
  failIf (s.memory.size < s.index.toNat + length ∨ s.index.toNat < programStart)
    (.invalidMemoryAccess s.index (UInt16.ofNat length))
  return s.index.toNat

/-- Inverts bits of a byte of the screen; whether one of them was set. -/
def invertByte (k : Nat) (bits : UInt8) : InPlace Bool := do
  let byte ← need (← state).screen.bytes[k]?
  update fun s =>
    { s with screen := { s.screen with bytes := s.screen.bytes.setIfInBounds k (byte ^^^ bits) } }
  return byte &&& bits != 0

/-- Draws eight pixels into row `y`, from the bit `offset` of the byte `column` on; whether one
of them went off. -/
def drawRow (column : Nat) (offset y row : UInt8) : InPlace Bool := do
  let s ← state
  let line := y.toNat * s.screen.byteWidth
  let next ← need (mod? (column + 1) s.screen.byteWidth)
  let left ← invertByte (line + column) (← need (shiftRight? row offset))
  if offset = 0 then
    return left
  let right ← invertByte (line + next) (← need (shiftLeft? row (← need (byteSub? 8 offset))))
  return left || right

/-- Draws the rows of a sprite downwards from row `y` on. -/
def drawRows (column : Nat) (offset : UInt8) : UInt8 → Bool → List UInt8 → InPlace Bool
  | _, hit, [] => return hit
  | y, hit, row :: rows => do
    let h ← drawRow column offset y row
    let below ← need (byteMod? (← need (byteAdd? y 1)) (← state).screen.height)
    drawRows column offset below (hit || h) rows

/-- Draws the sprite of `rows` bytes at the index register. -/
def drawSprite (x y rows : UInt8) : InPlace Bool := do
  let s ← state
  failIf (0x10000 ≤ s.index.toNat + rows.toNat) (.arithmeticOverflow s.index rows.toUInt16)
  failIf (s.memory.size < s.index.toNat + rows.toNat) (.invalidMemoryAccess s.index rows.toUInt16)
  let x ← need (byteMod? x s.screen.width)
  let y ← need (byteMod? y s.screen.height)
  let sprite ← need (slice? s.memory s.index.toNat rows.toNat)
  drawRows (x.toNat / 8) (x % 8) y false sprite

/-- Whether a key is down. -/
def keyDown (key : UInt8) : InPlace Bool := do
  let flag ← need (keyFlag? key)
  return (← state).keyboard &&& flag != 0

/-! ## Operations -/

/-- Carries an operation out in one step, as `Machine.execute` gives it. -/
def atOnce (address : UInt16) (op : Operation) : InPlace Unit := fun p =>
  match p.machine.execute address op with
  | .ok effect => some (.ok (), ⟨effect.machine, p.callbacks ++ effect.callbacks⟩)
  | .error fault => some (.error fault, p)

/-- Moves the index register behind a block of registers, in legacy mode. -/
def moveIndex (count : Nat) : InPlace Unit := do
  if (← state).legacy then update fun s => { s with index := s.index + UInt16.ofNat count }

/-- Executes an operation that was fetched at `address`. The operations that are carried out
at once neither fail nor touch a buffer other than the registers. -/
def execute (address : UInt16) : Operation → InPlace Unit
  | .clear => do
    update State.clearScreen
    tell .clearScreen
  | .ret => do
    failIf ((← state).stack.pointer < 0) .stackOverflow
    let slot ← need (sub? (← state).stack.depth 1)
    let target ← need (← state).stack.slots[slot]?
    update fun s => { s with pc := target }
    update fun s => { s with stack := { s.stack with depth := slot } }
  | .call target => do
    let s ← state
    failIf (s.stack.capacity ≤ s.stack.depth) .stackOverflow
    update fun s => { s with stack := { s.stack with depth := s.stack.depth + 1 } }
    let _ ← need s.stack.slots[s.stack.depth]?
    update fun t => { t with
      stack := { t.stack with slots := t.stack.slots.setIfInBounds s.stack.depth t.pc } }
    update fun s => { s with pc := target }
  | .draw x y rows => do
    let s ← state
    let hit ← drawSprite (s.register x) (s.register y) (UInt8.ofNat rows.val)
    update fun s => s.setFlag hit
    tell (.screenUpdate (← state))
  | .skipIfPressed x => do
    let down ← keyDown ((← state).register x)
    update fun s => s.skipIf down
  | .skipUnlessPressed x => do
    let down ← keyDown ((← state).register x)
    update fun s => s.skipIf !down
  | .storeDecimal x => do
    let start ← block 3
    let value := (← state).register x
    writeBytes start [value / 100]
    writeBytes (start + 1) [value / 10 % 10]
    writeBytes (start + 2) [value % 10]
  | .storeRegisters x => do
    let start ← block (x.val + 1)
    let bytes ← need (take? (← state).registers.toList (x.val + 1))
    writeBytes start bytes
    moveIndex (x.val + 1)
  | .loadRegisters x => do
    let start ← block (x.val + 1)
    let _ ← need (take? (← state).registers.toList (x.val + 1))
    let bytes ← need (slice? (← state).memory start (x.val + 1))
    update fun s => { s with
      registers := Vector.ofFn fun k : Fin 16 => bytes.getD k.val (s.register k) }
    moveIndex (x.val + 1)
  | .raw word => fail (.invalidInstruction word address)
  | op => atOnce address op

/-! ## Cycles -/

/-- The word at the program counter, which is moved behind it. -/
def fetch : InPlace UInt16 := do
  let s ← state
  failIf (s.memory.size < s.pc.toNat + 2) (.invalidMemoryAccess s.pc 2)
  let high ← readByte s.pc.toNat
  let low ← readByte (s.pc.toNat + 1)
  update fun s => { s with pc := s.pc + 2 }
  return wordOf high low

/-- Fetches an instruction and executes it. -/
def step : InPlace Unit := do
  let address := (← state).pc
  let word ← fetch
  execute address (Operation.decode word)

/-- Ends a wait for a key if one of the awaited keys is down. -/
def await (wait : KeyWait) : InPlace Unit := do
  match Keypad.lowest? ((← state).keyboard &&& wait.mask) with
  | none => pure ()
  | some key =>
    update fun s => s.setRegister wait.register (UInt8.ofNat key.val)
    update fun s => { s with keyWait := none }

/-- What a cycle does between the poll of the keyboard and the timers. -/
def advance : InPlace Unit := do
  match (← state).keyWait with
  | some wait => await wait
  | none => step

/-- Counts the delay timer down, unless it has run out. -/
def lowerDelay : InPlace Unit := do
  if 0 < (← state).delay then
    let delay ← need (byteSub? (← state).delay 1)
    update fun s => { s with delay := delay }

/-- Counts the sound timer down with a beep, unless it has run out. -/
def lowerSound : InPlace Unit := do
  if 0 < (← state).sound then
    let sound ← need (byteSub? (← state).sound 1)
    update fun s => { s with sound := sound }
    tell .beep

/-- Ends every period up to `now`; where the one begins that runs then. -/
def periods (interval now since : Nat) : InPlace Nat :=
  if 0 < interval ∧ interval ≤ now - since then do
    lowerDelay
    lowerSound
    periods interval now (since + interval)
  else pure since
termination_by now - since

/-- Counts the timers down to `now`. The first call starts the clock. -/
def tick (now : Nat) : InPlace Unit := do
  let since := (← machine).clock.getD now
  change fun m => { m with clock := some since }
  let since ← periods (← state).timerInterval now since
  change fun m => { m with clock := some since }

/-- A cycle with the given keys down, at the instant `now`. -/
def cycle (keyboard : UInt16) (now : Nat) : InPlace Unit := do
  tell .cycle
  change fun m => m.withKeyboard keyboard
  advance
  tick now

/-- Cycles with the given inputs. -/
def runAll : List Machine.Input → InPlace Unit
  | [] => pure ()
  | i :: is => do
    cycle i.keyboard i.now
    runAll is

/-- Puts a program into memory and the program counter on it. -/
def load (program : List UInt8) : InPlace Unit := do
  let free ← need (← state).freeMemory?
  failIf (free < program.length) (.outOfMemory program.length free)
  writeBytes programStart program
  update fun s => { s with pc := UInt16.ofNat programStart }

/-- Answers a call of the host. -/
def answer : Call → InPlace Unit
  | .load program => load program
  | .cycle i => cycle i.keyboard i.now
  | .run inputs => runAll inputs
  | .tick now => tick now
  | .press key => do
    let flag ← need (keyFlag? key)
    update fun s => { s with keyboard := s.keyboard ||| flag }
  | .release key => do
    let flag ← need (keyFlag? key)
    update fun s => { s with keyboard := s.keyboard &&& ~~~flag }
  | .clearScreen => update State.clearScreen
  | .draw x y rows => do let _ ← drawSprite x y rows
  | .reseed seed => change fun m => m.reseed seed

/-- What a run comes to on a platform that was told other callbacks before. -/
def outcome (told : List Callback) (r : Run) : Except Fault Unit × Progress :=
  (r.result, ⟨r.machine, told ++ r.callbacks⟩)

end InPlace

end Chip8
