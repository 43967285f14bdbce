import Chip8.Fault
import Chip8.Operation.Decode
import Chip8.Operation.Text

/-!
# Records of a program

Linear disassembly cuts a program into words from its first byte on; a byte left over is a
record of its own. `records` cuts any program, `disassemble` one of even length only.
-/

namespace Chip8

/-- A word of a program, or a byte that belongs to none. -/
inductive Record where
  /-- Two bytes that make a word. -/
  | word (high low : UInt8)
  /-- A lone byte. -/
  | byte (value : UInt8)
  deriving DecidableEq, Repr

namespace Record

/-- The bytes of a record, in order. -/
def bytes : Record → List UInt8
  | word high low => [high, low]
  | byte value => [value]

/-- The number of bytes. -/
def size (r : Record) : Nat := r.bytes.length

/-- The word, or the value of the lone byte. -/
def opcode : Record → UInt16
  | word high low => wordOf high low
  | byte value => value.toUInt16

/-- The operation that a word spells. A lone byte spells none. -/
def operation : Record → Operation
  | word high low => Operation.decode (wordOf high low)
  | byte value => .raw value.toUInt16

/-- The line of assembly. -/
def text (r : Record) : String :=
  match r with
  | word _ _ => r.operation.text
  | byte value => "DB " ++ Operation.byteText value

/-- The opcode in hex, two digits for each byte. -/
def opcodeText (r : Record) : String := Numeral.hex (2 * r.size) r.opcode.toNat

/-- What the operation does. -/
def description (r : Record) : String := r.operation.description

/-- Whether a byte is a printable ASCII character. -/
def isPrintable (b : UInt8) : Bool := 32 ≤ b.toNat && b.toNat ≤ 126

/-- The bytes as characters, when all of them are printable. -/
def ascii (r : Record) : Option String :=
  if r.bytes.all isPrintable then
    some (String.ofList (r.bytes.map fun b => Char.ofNat b.toNat))
  else none

/-- The record of one or two bytes. -/
def ofBytes : List UInt8 → Except Fault Record
  | [high, low] => .ok (word high low)
  | [value] => .ok (byte value)
  | bytes => .error (.unsupportedAlignment bytes.length)

theorem size_word (high low : UInt8) : (word high low).size = 2 := rfl

theorem size_byte (value : UInt8) : (byte value).size = 1 := rfl

theorem ofBytes_bytes (r : Record) : ofBytes r.bytes = .ok r := by
  cases r <;> rfl

end Record

/-! ## Programs -/

/-- The records of `program`, behind those already found. -/
def recordsFrom (found : List Record) : List UInt8 → List Record
  | [] => found.reverse
  | [value] => (.byte value :: found).reverse
  | high :: low :: rest => recordsFrom (.word high low :: found) rest

/-- The records of a program. -/
def records (program : List UInt8) : List Record := recordsFrom [] program

/-- The records of a program that consists of words. -/
def disassemble (program : List UInt8) : Except Fault (List Record) :=
  if program.length % 2 = 0 then .ok (records program)
  else .error (.unsupportedAlignment program.length)

theorem recordsFrom_eq (found : List Record) :
    ∀ program, recordsFrom found program = found.reverse ++ records program
  | [] => by simp [records, recordsFrom]
  | [value] => by simp [records, recordsFrom]
  | high :: low :: rest => by
    simp only [records, recordsFrom]
    rw [recordsFrom_eq _ rest, recordsFrom_eq [.word high low] rest]
    simp

@[simp] theorem records_nil : records [] = [] := rfl

@[simp] theorem records_singleton (value : UInt8) : records [value] = [.byte value] := rfl

@[simp] theorem records_cons_cons (high low : UInt8) (rest : List UInt8) :
    records (high :: low :: rest) = .word high low :: records rest := by
  rw [records, recordsFrom, recordsFrom_eq]; rfl

end Chip8
