import Chip8.Operation
import Chip8.Text.Numeral

/-!
# Operations as text

The mnemonic of an operation, its line of assembly with upper-case hex operands, and the
sentence that a listing prints beside it.
-/

namespace Chip8

namespace Operation

/-- The name of a register. -/
def registerName (x : Nibble) : String := "V" ++ Numeral.hex 1 x.val

/-- An address operand : three hex digits. -/
def addressText (address : UInt16) : String := Numeral.hex 3 address.toNat

/-- A byte operand : two hex digits. -/
def byteText (byte : UInt8) : String := Numeral.hex 2 byte.toNat

/-- The mnemonic, which several operations may share. -/
def mnemonic : Operation → String
  | sys _ => "SYS"
  | clear => "CLS"
  | ret => "RET"
  | jump _ | jumpPlus _ => "JP"
  | call _ => "CALL"
  | skipIfByte _ _ | skipIfSame _ _ => "SE"
  | skipUnlessByte _ _ | skipUnlessSame _ _ => "SNE"
  | setByte _ _ | copy _ _ | setIndex _ | readDelay _ | awaitKey _ | setDelay _ | setSound _
  | glyph _ | storeDecimal _ | storeRegisters _ | loadRegisters _ => "LD"
  | addByte _ _ | add _ _ | addIndex _ => "ADD"
  | bitOr _ _ => "OR"
  | bitAnd _ _ => "AND"
  | bitXor _ _ => "XOR"
  | sub _ _ => "SUB"
  | shiftRight _ _ => "SHR"
  | subFrom _ _ => "SUBN"
  | shiftLeft _ _ => "SHL"
  | random _ _ => "RND"
  | draw _ _ _ => "DRW"
  | skipIfPressed _ => "SKP"
  | skipUnlessPressed _ => "SKNP"
  | raw _ => "DB"

/-- The operands, separated by commas; the bytes of a raw word by a blank. -/
def operands : Operation → String
  | sys a | jump a | call a => addressText a
  | clear | ret => ""
  | skipIfByte x b | skipUnlessByte x b | setByte x b | addByte x b | random x b =>
    registerName x ++ "," ++ byteText b
  | skipIfSame x y | skipUnlessSame x y | copy x y | bitOr x y | bitAnd x y | bitXor x y
  | add x y | sub x y | shiftRight x y | subFrom x y | shiftLeft x y =>
    registerName x ++ "," ++ registerName y
  | setIndex a => "I," ++ addressText a
  | jumpPlus a => "V0," ++ addressText a
  | draw x y n => registerName x ++ "," ++ registerName y ++ "," ++ Numeral.hex 1 n.val
  | skipIfPressed x | skipUnlessPressed x => registerName x
  | readDelay x => registerName x ++ ",DT"
  | awaitKey x => registerName x ++ ",K"
  | setDelay x => "DT," ++ registerName x
  | setSound x => "ST," ++ registerName x
  | addIndex x => "I," ++ registerName x
  | glyph x => "I,CHAR " ++ registerName x
  | storeDecimal x => "[I],BCD " ++ registerName x
  | storeRegisters x => "[I]," ++ registerName x
  | loadRegisters x => registerName x ++ ",[I]"
  | raw word => byteText (word >>> 8).toUInt8 ++ " " ++ byteText word.toUInt8

/-- The line of assembly : the mnemonic, and the operands if there are any. -/
def text (op : Operation) : String :=
  match op with
  | clear | ret => op.mnemonic
  | _ => op.mnemonic ++ " " ++ op.operands

/-- What the operation does, in a sentence. -/
def description : Operation → String
  | sys _ => "0NNN: Calls RCA 1802 program at address NNN."
  | clear => "00E0: Clears the screen."
  | ret => "00EE: Returns from a subroutine."
  | jump _ => "1NNN: Jumps to address NNN."
  | call _ => "2NNN: Calls subroutine at NNN."
  | skipIfByte _ _ => "3XNN: Skips the next instruction if VX equals NN."
  | skipUnlessByte _ _ => "4XNN: Skips the next instruction if VX doesn't equal NN."
  | skipIfSame _ _ => "5XY0: Skips the next instruction if VX equals VY."
  | setByte _ _ => "6XNN: Sets VX to NN."
  | addByte _ _ => "7XNN: Adds NN to VX."
  | copy _ _ => "8XY0: Sets VX to the value of VY."
  | bitOr _ _ => "8XY1: Sets VX to VX | VY (bit-wise OR)."
  | bitAnd _ _ => "8XY2: Sets VX to VX & VY (bit-wise AND)."
  | bitXor _ _ => "8XY3: Sets VX to VX ^ VY (bit-wise XOR)."
  | add _ _ => "8XY4: VX += VY. VF = 1 when there's a carry, 0 when there isn't."
  | sub _ _ => "8XY5: VX -= VY. VF = 0 when there's a borrow, 1 when there isn't."
  | shiftRight _ _ => "8XY6: VX = VY >> 1. VF = least significant bit prior to the shift."
  | subFrom _ _ => "8XY7: VX = VY - VX. VF = 0 when there's a borrow, 1 when there isn't."
  | shiftLeft _ _ => "8XYE: VX = VY << 1. VF = most significant bit prior to the shift."
  | skipUnlessSame _ _ => "9XY0: Skips the next instruction if VX doesn't equal VY."
  | setIndex _ => "ANNN: Sets I to the address NNN."
  | jumpPlus _ => "BNNN: Jumps to the address NNN plus V0."
  | random _ _ => "CXNN: Sets VX to a random number (0-FF) & NN (bit-wise AND)."
  | draw _ _ _ => "DXYN: Draws N rows of sprite pointed by I at VX,VY."
  | skipIfPressed _ => "EX9E: Skips the next instruction if the key stored in VX is pressed."
  | skipUnlessPressed _ =>
    "EXA1: Skips the next instruction if the key stored in VX isn't pressed."
  | readDelay _ => "FX07: Sets VX to the value of the delay timer."
  | awaitKey _ => "FX0A: A key press is awaited, and then key number is stored in VX."
  | setDelay _ => "FX15: Sets the delay timer to VX."
  | setSound _ => "FX18: Sets the sound timer to VX."
  | addIndex _ => "FX1E: Adds VX to I."
  | glyph _ => "FX29: Sets I to the location of the sprite for the character in VX."
  | storeDecimal _ => "FX33: Store BCD representation of VX in memory at I, I+1, and I+2."
  | storeRegisters _ => "FX55: Stores V0 to VX in memory starting at address I."
  | loadRegisters _ => "FX65: Fills V0 to VX with values from memory starting at address I."
  | raw _ => "Unknown / Raw Data"

end Operation

end Chip8
