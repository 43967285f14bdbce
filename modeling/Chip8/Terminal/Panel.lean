import Chip8.Machine.Summary
import Chip8.Terminal.Command

/-!
# Panels of the terminal

The terminal shows the call stack and the latest system calls on the left, and the status
lines with the screen below them on the right. Each panel is a list of commands : the system
calls (`syscallPanel`), the status and the stack (`statusPanel`), and the pixels that changed
since the screen was drawn last (`screenPanel`). The rows of the stack are words, so that its
drawing stops at a slot that has no row.
-/

namespace Chip8

namespace Terminal

/-! ## Layout -/

/-- The column of the call stack. -/
def stackColumn : UInt16 := 0

/-- The column of the system calls. -/
def syscallColumn : UInt16 := 8

/-- The column of the status lines and of the screen. -/
def statusColumn : UInt16 := 20

/-- The row of the first pixels. -/
def screenRow : UInt16 := 5

/-- The titles of the left panels. -/
def titles : String := "Stack   Syscalls"

/-! ## System calls -/

/-- The calls of a program that the terminal shows. -/
inductive Syscall where
  | clear
  | draw
  | beep
  deriving DecidableEq, Repr

/-- The name of a call. -/
def Syscall.name : Syscall → String
  | clear => "CLS"
  | draw => "DRW"
  | beep => "BEEP"

/-- The most calls that are remembered. -/
def syscallLimit : Nat := 10

/-- The calls so far with a new one, newest first. -/
def remember (calls : List Syscall) (call : Syscall) : List Syscall :=
  (call :: calls).take syscallLimit

/-- A row of the system calls, filled up with blanks; rows without a call are blank. -/
def syscallRow (calls : List Syscall) (row : Nat) : List Command :=
  [.moveTo syscallColumn (UInt16.ofNat row + 1),
   .print (.ofList (((calls[row]?.map Syscall.name).getD "").toList.rightpad 8 ' '))]

/-- The system calls. -/
def syscallPanel (calls : List Syscall) : List Command :=
  (List.range syscallLimit).flatMap (syscallRow calls)

/-! ## Status -/

/-- The status lines, each in a row of its own. -/
def statusRows (s : State) : List Command :=
  s.statusLines.zipIdx.flatMap fun (line, row) =>
    [.moveTo statusColumn (UInt16.ofNat row), .clearLine, .print line]

/-- What a slot of the call stack shows : its address, or blanks if it is not in use. -/
def slotText (s : State) (slot : Nat) : String :=
  match s.stack.get? slot with
  | some address => State.wordText address
  | none => "    "

/-- A slot of the call stack, in the row below the one that has its number. -/
def stackRow (s : State) (slot : Nat) : Except Overflow (List Command) := do
  let row ← addWords (UInt16.ofNat slot).toBitVec 1
  return [.moveTo stackColumn (.ofBitVec row), .print (slotText s slot)]

/-- The status lines and the call stack, up to the first slot that has no row. -/
def statusPanel (s : State) : Sent :=
  .ofPieces (.ok (statusRows s) :: (List.range s.stack.capacity).map (stackRow s))

/-! ## Pixels -/

/-- What a pixel shows : a full block if it is on, a blank if not. -/
def pixelText (on : Bool) : String := if on then "█" else " "

/-- The commands for a pixel of a byte, if it changed. -/
def pixelCells (before now : UInt8) (column row : UInt16) (bit : Nat) : List Command :=
  if (now ^^^ before).toNat.testBit (7 - bit) then
    [.moveTo (statusColumn + column + UInt16.ofNat bit) (screenRow + row),
     .print (pixelText (now.toNat.testBit (7 - bit)))]
  else []

/-- The commands for the pixels of the byte with an index that changed. -/
def byteCells (before : Array UInt8) (s : Screen) (k : Nat) : List Command :=
  if s.byte k = before.getD k 0 then []
  else
    (List.range 8).flatMap
      (pixelCells (before.getD k 0) (s.byte k) (UInt16.ofNat (k % s.byteWidth * 8))
        (UInt16.ofNat (k / s.byteWidth)))

/-- The commands for all pixels that changed. -/
def screenPanel (before : Array UInt8) (s : Screen) : List Command :=
  (List.range s.bytes.size).flatMap (byteCells before s)

theorem length_remember (calls : List Syscall) (call : Syscall) :
    (remember calls call).length ≤ syscallLimit := by
  simp only [remember, List.length_take]; omega

end Terminal

end Chip8
