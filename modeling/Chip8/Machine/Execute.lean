import Chip8.Machine.Summary
import Chip8.Machine.Timers
import Chip8.Operation.Decode
import Chip8.Operation.Text
import Chip8.Random

/-!
# Executing an operation

`Machine.execute` applies an operation whose word has been fetched already, so that the
program counter points behind it. An operation that fails changes nothing : its checks come
before its changes. The flag register is written after the result, and so keeps the flag
when it is also the target.
-/

namespace Chip8

/-- A state together with the source of its random numbers and the clock of its timers. -/
structure Machine where
  /-- What instructions read and write. -/
  state : State
  /-- The source of random bytes. -/
  random : Random
  /-- The start of the timer period that runs, once the clock is started. -/
  clock : Option Nat
  deriving DecidableEq

/-- What a machine tells its platform. -/
inductive Callback where
  /-- The machine was built. -/
  | init (seen : State)
  /-- A cycle begins. -/
  | cycle
  /-- The program cleared the screen. -/
  | clearScreen
  /-- The program drew a sprite. -/
  | screenUpdate (seen : State)
  /-- The sound timer counted down. -/
  | beep
  deriving DecidableEq

/-- What an operation does to a machine, and what it tells the platform. -/
structure Effect where
  /-- The machine after the operation. -/
  machine : Machine
  /-- The callbacks, in order. -/
  callbacks : List Callback := []
  deriving DecidableEq

namespace Machine

/-- The index register behind a block of registers, which only legacy mode moves. -/
def indexAfter (s : State) (count : Nat) : UInt16 :=
  if s.legacy then s.index + UInt16.ofNat count else s.index

/-- The three decimal digits of a byte. -/
def decimalDigits (value : UInt8) : List UInt8 := [value / 100, value / 10 % 10, value % 10]

/-- The registers with those before `count` read from memory at `start`. -/
def loadedRegisters (s : State) (start count : Nat) : Vector UInt8 16 :=
  Vector.ofFn fun k : Fin 16 =>
    if k.val < count then s.memory.read (start + k.val) else s.register k

/-- Executes an operation that was fetched at `address`. -/
def execute (m : Machine) (address : UInt16) (op : Operation) : Except Fault Effect :=
  let s := m.state
  let done (t : State) : Except Fault Effect := .ok { machine := { m with state := t } }
  match op with
  | .sys _ => done s
  | .clear =>
    .ok { machine := { m with state := s.clearScreen }, callbacks := [.clearScreen] }
  | .ret =>
    match s.stack.pop? with
    | some (target, stack) => done { s with pc := target, stack := stack }
    | none => .error .stackOverflow
  | .jump target => done { s with pc := target }
  | .call target =>
    match s.stack.push? s.pc with
    | some stack => done { s with pc := target, stack := stack }
    | none => .error .stackOverflow
  | .skipIfByte x byte => done (s.skipIf (s.register x == byte))
  | .skipUnlessByte x byte => done (s.skipIf (s.register x != byte))
  | .skipIfSame x y => done (s.skipIf (s.register x == s.register y))
  | .setByte x byte => done (s.setRegister x byte)
  | .addByte x byte => done (s.setRegister x (s.register x + byte))
  | .copy x y => done (s.setRegister x (s.register y))
  | .bitOr x y => done (s.setRegister x (s.register x ||| s.register y))
  | .bitAnd x y => done (s.setRegister x (s.register x &&& s.register y))
  | .bitXor x y => done (s.setRegister x (s.register x ^^^ s.register y))
  | .add x y =>
    let vx := s.register x
    let vy := s.register y
    done ((s.setRegister x (vx + vy)).setFlag (256 ≤ vx.toNat + vy.toNat))
  | .sub x y =>
    let vx := s.register x
    let vy := s.register y
    done ((s.setRegister x (vx - vy)).setFlag (vy ≤ vx))
  | .shiftRight x y =>
    let source := if s.legacy then s.register y else s.register x
    done ((s.setRegister x (source >>> 1)).setFlag (source &&& 1 == 1))
  | .subFrom x y =>
    let vx := s.register x
    let vy := s.register y
    done ((s.setRegister x (vy - vx)).setFlag (vx ≤ vy))
  | .shiftLeft x y =>
    let source := if s.legacy then s.register y else s.register x
    done ((s.setRegister x (source <<< 1)).setFlag (source >>> 7 == 1))
  | .skipUnlessSame x y => done (s.skipIf (s.register x != s.register y))
  | .setIndex target => done { s with index := target }
  | .jumpPlus target => done { s with pc := target + (s.register (Nibble.ofNat 0)).toUInt16 }
  | .random x mask =>
    let (byte, random) := m.random.nextByte
    .ok { machine := { m with state := s.setRegister x (byte &&& mask), random := random } }
  | .draw x y rows =>
    match s.drawSprite (s.register x) (s.register y) (UInt8.ofNat rows.val) with
    | .error fault => .error fault
    | .ok (drawn, hit) =>
      let seen := drawn.setFlag hit
      .ok { machine := { m with state := seen }, callbacks := [.screenUpdate seen] }
  | .skipIfPressed x => done (s.skipIf (s.isKeyPressed (s.register x)))
  | .skipUnlessPressed x => done (s.skipIf (!s.isKeyPressed (s.register x)))
  | .readDelay x => done (s.setRegister x s.delay)
  | .awaitKey x => done { s with keyWait := some ⟨x, ~~~s.keyboard⟩ }
  | .setDelay x => done { s with delay := s.register x }
  | .setSound x => done { s with sound := s.register x }
  | .addIndex x => done { s with index := s.index + (s.register x).toUInt16 }
  | .glyph x =>
    done { s with
      index := UInt16.ofNat Font.start
        + (s.register x).toUInt16 * UInt16.ofNat Font.glyphSize }
  | .storeDecimal x =>
    match s.checkBlock 3 with
    | .error fault => .error fault
    | .ok () =>
      done { s with memory := s.memory.write s.index.toNat (decimalDigits (s.register x)) }
  | .storeRegisters x =>
    let count := x.val + 1
    match s.checkBlock count with
    | .error fault => .error fault
    | .ok () =>
      done { s with
        memory := s.memory.write s.index.toNat (s.registers.toList.take count)
        index := indexAfter s count }
  | .loadRegisters x =>
    let count := x.val + 1
    match s.checkBlock count with
    | .error fault => .error fault
    | .ok () =>
      done { s with
        registers := loadedRegisters s s.index.toNat count
        index := indexAfter s count }
  | .raw word => .error (.invalidInstruction word address)

end Machine

end Chip8
