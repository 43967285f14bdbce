import Chip8.Fault
import Chip8.Machine.CallStack
import Chip8.Machine.Font
import Chip8.Machine.Keypad
import Chip8.Machine.Memory
import Chip8.Machine.Screen

/-!
# The state of a machine

What instructions read and write. `State.new` builds the state that settings describe,
with the font in memory and everything else zero.

`State.image` is memory as the first interpreters laid it out : in the compact layout it
shows the slots of the call stack and the screen in their windows.
-/

namespace Chip8

/-- The period of the timers in nanoseconds : a sixtieth of a second. -/
def timerPeriod : Nat := 1000000000 / 60

/-- The state of a machine. -/
structure State where
  /-- Memory, with the font at its beginning and programs at `programStart`. -/
  memory : Memory
  /-- The registers `V0` to `VF`. -/
  registers : Vector UInt8 16
  /-- The index register. -/
  index : UInt16
  /-- Return addresses. -/
  stack : CallStack
  /-- The address of the next instruction. -/
  pc : UInt16
  /-- The delay timer. -/
  delay : UInt8
  /-- The sound timer. -/
  sound : UInt8
  /-- The keys that are down. -/
  keyboard : UInt16
  /-- The pixels. -/
  screen : Screen
  /-- Nanoseconds from one timer tick to the next. -/
  timerInterval : Nat
  /-- The wait for a key, if the machine is in one. -/
  keyWait : Option KeyWait
  /-- The configuration that the state was built from. -/
  settings : Settings
  deriving DecidableEq, Repr

namespace State

/-! ## Construction -/

/-- The state before the first cycle. -/
def initial (settings : Settings) : State where
  memory := Memory.write (Array.replicate settings.memorySize.toNat 0) Font.start Font.bytes
  registers := Vector.replicate 16 0
  index := 0
  stack := CallStack.empty settings.stackSize.toNat
  pc := UInt16.ofNat programStart
  delay := 0
  sound := 0
  keyboard := 0
  screen := Screen.blank settings.width settings.height
  timerInterval := timerPeriod
  keyWait := none
  settings := settings

/-- The state that settings describe, if they are valid. -/
def new (settings : Settings) : Except Fault State :=
  match settings.validate with
  | .ok () => .ok (initial settings)
  | .error e => .error (.invalidSettings e)

theorem new_eq_ok {settings : Settings} (h : settings.Valid) :
    new settings = .ok (initial settings) := by
  rw [Settings.Valid] at h; simp [new, h]

/-! ## Views -/

/-- Bytes that a program may take. -/
def freeMemory (s : State) : Nat := s.memory.size - programStart

/-- Whether the machine behaves as in legacy mode. -/
def legacy (s : State) : Bool := s.settings.legacyMode

/-- The two bytes of a word, the more significant one first. -/
def wordBytes (word : UInt16) : List UInt8 := [(word >>> 8).toUInt8, word.toUInt8]

/-- Memory with the slots of the stack and the screen in their windows, where they belong in
the compact layout. -/
def image (s : State) : Memory :=
  if s.settings.compactLayout then
    (s.memory.write stackWindow (s.stack.slots.toList.flatMap wordBytes)).write screenWindow
      s.screen.bytes.toList
  else s.memory

theorem size_image (s : State) : s.image.size = s.memory.size := by
  unfold image; split <;> simp

/-! ## Changes -/

/-- The register that takes carries, borrows and collisions. -/
def flagRegister : Nibble := Nibble.ofNat 0xF

/-- The byte in a register. -/
def register (s : State) (x : Nibble) : UInt8 := s.registers[x]

/-- Sets a register. -/
def setRegister (s : State) (x : Nibble) (value : UInt8) : State :=
  { s with registers := s.registers.set x value }

/-- Sets the flag register to one or zero. -/
def setFlag (s : State) (flag : Bool) : State :=
  s.setRegister flagRegister (if flag then 1 else 0)

theorem register_setRegister_of_ne (s : State) {x k : Nibble} (hk : k ≠ x) (value : UInt8) :
    (s.setRegister x value).register k = s.register k :=
  Vector.getElem_set_ne x.isLt k.isLt fun h => hk (Fin.ext h.symm)

theorem register_setFlag_setRegister (s : State) {x k : Nibble} (hx : k ≠ x)
    (hflag : k ≠ flagRegister) (value : UInt8) (flag : Bool) :
    ((s.setRegister x value).setFlag flag).register k = s.register k := by
  rw [setFlag, register_setRegister_of_ne _ hflag, register_setRegister_of_ne _ hx]

/-- Steps over the next instruction if a condition holds. -/
def skipIf (s : State) (condition : Bool) : State :=
  if condition then { s with pc := s.pc + 2 } else s

/-- A skip changes the program counter alone. -/
theorem skipIf_eq (s : State) (condition : Bool) :
    s.skipIf condition = { s with pc := if condition then s.pc + 2 else s.pc } := by
  unfold skipIf; cases condition <;> rfl

/-- Turns all pixels off. -/
def clearScreen (s : State) : State := { s with screen := s.screen.clear }

/-- Presses a key. -/
def pressKey (s : State) (key : UInt8) : State :=
  { s with keyboard := Keypad.press s.keyboard key }

/-- Releases a key. -/
def releaseKey (s : State) (key : UInt8) : State :=
  { s with keyboard := Keypad.release s.keyboard key }

/-- Whether a key is down. -/
def isKeyPressed (s : State) (key : UInt8) : Bool := Keypad.isPressed s.keyboard key

/-- Draws the sprite of `rows` bytes at the index register; whether a pixel went off. A
sprite that does not fit memory is not drawn. -/
def drawSprite (s : State) (x y rows : UInt8) : Except Fault (State × Bool) :=
  let start := s.index.toNat
  if 0x10000 ≤ start + rows.toNat then
    .error (.arithmeticOverflow s.index rows.toUInt16)
  else if s.memory.size < start + rows.toNat then
    .error (.invalidMemoryAccess s.index rows.toUInt16)
  else
    let (screen, hit) := s.screen.draw x.toNat y.toNat (s.memory.slice start rows.toNat)
    .ok ({ s with screen := screen }, hit)

/-- Refuses a block of `length` bytes at the index register that a program may not touch :
one that runs past the last address or past memory, or begins below `programStart`. -/
def checkBlock (s : State) (length : Nat) : Except Fault Unit :=
  let stop := s.index.toNat + length
  if 0x10000 ≤ stop then .error (.arithmeticOverflow s.index (UInt16.ofNat length))
  else if s.memory.size < stop ∨ s.index.toNat < programStart then
    .error (.invalidMemoryAccess s.index (UInt16.ofNat length))
  else .ok ()

theorem checkBlock_eq_ok_iff {s : State} {length : Nat} :
    s.checkBlock length = .ok () ↔
      programStart ≤ s.index.toNat ∧ s.index.toNat + length ≤ s.memory.size ∧
        s.index.toNat + length < 0x10000 := by
  unfold checkBlock
  dsimp only
  split
  · exact iff_of_false nofun (by omega)
  · split
    · exact iff_of_false nofun (by omega)
    · exact iff_of_true rfl (by omega)

end State

end Chip8
