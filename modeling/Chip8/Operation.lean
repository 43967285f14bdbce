/-!
# Operations

The thirty-five operations of a CHIP-8 processor, with their operands, and the words
that spell none of them.
-/

namespace Chip8

/-- One of the sixteen registers, or an operand that is a single hex digit. -/
abbrev Nibble := Fin 16

namespace Nibble

theorem lt (x : Nibble) : x.val < 16 := x.isLt

theorem mod_lt (n : Nat) : n % 16 < 16 := Nat.mod_lt n (by decide)

/-- The low hex digit of a number. -/
def ofNat (n : Nat) : Nibble := ⟨n % 16, mod_lt n⟩

end Nibble

/-- What a word asks the processor to do. An address is the low twelve bits of its word. -/
inductive Operation where
  /-- `0NNN` : call into the host, which does nothing here. -/
  | sys (address : UInt16)
  /-- `00E0` -/
  | clear
  /-- `00EE` -/
  | ret
  /-- `1NNN` -/
  | jump (address : UInt16)
  /-- `2NNN` -/
  | call (address : UInt16)
  /-- `3XNN` -/
  | skipIfByte (x : Nibble) (byte : UInt8)
  /-- `4XNN` -/
  | skipUnlessByte (x : Nibble) (byte : UInt8)
  /-- `5XY0` -/
  | skipIfSame (x y : Nibble)
  /-- `6XNN` -/
  | setByte (x : Nibble) (byte : UInt8)
  /-- `7XNN` -/
  | addByte (x : Nibble) (byte : UInt8)
  /-- `8XY0` -/
  | copy (x y : Nibble)
  /-- `8XY1` -/
  | bitOr (x y : Nibble)
  /-- `8XY2` -/
  | bitAnd (x y : Nibble)
  /-- `8XY3` -/
  | bitXor (x y : Nibble)
  /-- `8XY4` -/
  | add (x y : Nibble)
  /-- `8XY5` -/
  | sub (x y : Nibble)
  /-- `8XY6` -/
  | shiftRight (x y : Nibble)
  /-- `8XY7` -/
  | subFrom (x y : Nibble)
  /-- `8XYE` -/
  | shiftLeft (x y : Nibble)
  /-- `9XY0` -/
  | skipUnlessSame (x y : Nibble)
  /-- `ANNN` -/
  | setIndex (address : UInt16)
  /-- `BNNN` -/
  | jumpPlus (address : UInt16)
  /-- `CXNN` -/
  | random (x : Nibble) (mask : UInt8)
  /-- `DXYN` -/
  | draw (x y rows : Nibble)
  /-- `EX9E` -/
  | skipIfPressed (x : Nibble)
  /-- `EXA1` -/
  | skipUnlessPressed (x : Nibble)
  /-- `FX07` -/
  | readDelay (x : Nibble)
  /-- `FX0A` -/
  | awaitKey (x : Nibble)
  /-- `FX15` -/
  | setDelay (x : Nibble)
  /-- `FX18` -/
  | setSound (x : Nibble)
  /-- `FX1E` -/
  | addIndex (x : Nibble)
  /-- `FX29` -/
  | glyph (x : Nibble)
  /-- `FX33` -/
  | storeDecimal (x : Nibble)
  /-- `FX55` -/
  | storeRegisters (x : Nibble)
  /-- `FX65` -/
  | loadRegisters (x : Nibble)
  /-- A word, or a lone byte, that spells no operation. -/
  | raw (word : UInt16)
  deriving DecidableEq, Repr, Inhabited

namespace Operation

/-- Whether this is no operation at all. -/
def isRaw : Operation → Bool
  | raw _ => true
  | _ => false

end Operation

end Chip8
