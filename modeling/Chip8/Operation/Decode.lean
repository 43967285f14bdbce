import Chip8.Operation

/-!
# Decoding a word

The four hex digits of a word select its operation : the first one a group, and in the
groups `8`, `E` and `F` the last one or two an operation of the group. In group `0` the
words `00E0` and `00EE` stand out. `decode` is total : a word that fits nowhere is `raw`.
-/

namespace Chip8

/-- The word of two bytes, the first one more significant. -/
def wordOf (high low : UInt8) : UInt16 := high.toUInt16 <<< 8 ||| low.toUInt16

namespace Operation

/-- The second hex digit of a word. -/
def xOf (word : UInt16) : Nibble := Nibble.ofNat (word.toNat / 0x100)

/-- The third hex digit of a word. -/
def yOf (word : UInt16) : Nibble := Nibble.ofNat (word.toNat / 0x10)

/-- The last hex digit of a word. -/
def nOf (word : UInt16) : Nibble := Nibble.ofNat word.toNat

/-- The low byte of a word. -/
def byteOf (word : UInt16) : UInt8 := word.toUInt8

/-- The low twelve bits of a word. -/
def addressOf (word : UInt16) : UInt16 := word &&& 0x0FFF

/-- Group `0`. -/
def decodeSystem (word : UInt16) : Operation :=
  if word = 0x00E0 then clear
  else if word = 0x00EE then ret
  else sys (addressOf word)

/-- Group `8` : arithmetic and logic on two registers. -/
def decodeArithmetic (word : UInt16) : Operation :=
  let x := xOf word
  let y := yOf word
  match nOf word with
  | 0x0 => copy x y
  | 0x1 => bitOr x y
  | 0x2 => bitAnd x y
  | 0x3 => bitXor x y
  | 0x4 => add x y
  | 0x5 => sub x y
  | 0x6 => shiftRight x y
  | 0x7 => subFrom x y
  | 0xE => shiftLeft x y
  | _ => raw word

/-- Group `E` : skips on a key. -/
def decodeKeypad (word : UInt16) : Operation :=
  let x := xOf word
  if byteOf word = 0x9E then skipIfPressed x
  else if byteOf word = 0xA1 then skipUnlessPressed x
  else raw word

/-- Group `F` : timers, the index register and register blocks. -/
def decodeMiscellaneous (word : UInt16) : Operation :=
  let x := xOf word
  let byte := byteOf word
  if byte = 0x07 then readDelay x
  else if byte = 0x0A then awaitKey x
  else if byte = 0x15 then setDelay x
  else if byte = 0x18 then setSound x
  else if byte = 0x1E then addIndex x
  else if byte = 0x29 then glyph x
  else if byte = 0x33 then storeDecimal x
  else if byte = 0x55 then storeRegisters x
  else if byte = 0x65 then loadRegisters x
  else raw word

/-- The operation that a word spells. -/
def decode (word : UInt16) : Operation :=
  let x := xOf word
  let y := yOf word
  let byte := byteOf word
  let address := addressOf word
  match Fin.ofNat 16 (word.toNat / 0x1000) with
  | 0x0 => decodeSystem word
  | 0x1 => jump address
  | 0x2 => call address
  | 0x3 => skipIfByte x byte
  | 0x4 => skipUnlessByte x byte
  | 0x5 => skipIfSame x y
  | 0x6 => setByte x byte
  | 0x7 => addByte x byte
  | 0x8 => decodeArithmetic word
  | 0x9 => skipUnlessSame x y
  | 0xA => setIndex address
  | 0xB => jumpPlus address
  | 0xC => random x byte
  | 0xD => draw x y (nOf word)
  | 0xE => decodeKeypad word
  | _ => decodeMiscellaneous word

end Operation

end Chip8
