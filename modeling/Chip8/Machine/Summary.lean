import Chip8.Machine.State

/-!
# A state in words

`State.summary` puts a state into one line, and `State.statusLines` into the four lines that
stand beside the screen.
-/

namespace Chip8

namespace State

/-- Bytes in hex, separated by blanks. -/
def registersText (s : State) : String :=
  " ".intercalate (s.registers.toList.map fun r => Numeral.hex 2 r.toNat)

/-- A word as four hex digits. -/
def wordText (word : UInt16) : String := Numeral.hex 4 word.toNat

/-- The timers, as both texts end them. -/
def timersText (s : State) : String :=
  "DT: " ++ Numeral.hex 2 s.delay.toNat ++ ", ST: " ++ Numeral.hex 2 s.sound.toNat

/-- The keys that are down, and the size of the screen. -/
def keyboardText (s : State) : String :=
  "Keyboard: " ++ Numeral.binary 16 s.keyboard.toNat ++ ", Screen: "
    ++ Numeral.decimal s.screen.width.toNat ++ "*" ++ Numeral.decimal s.screen.height.toNat

/-- The stack pointer and the program counter. -/
def countersText (s : State) : String :=
  "SP: " ++ Numeral.integer s.stack.pointer ++ ", PC: " ++ wordText s.pc ++ ", "

/-- The state in one line. -/
def summary (s : State) : String :=
  "Chip8\x7bMemory: " ++ Numeral.decimal s.memory.size ++ " bytes, Registers: ["
    ++ s.registersText ++ "] I: " ++ wordText s.index ++ ", Stack: ["
    ++ " ".intercalate (s.stack.toList.map wordText) ++ "], " ++ s.countersText
    ++ s.timersText ++ ", " ++ s.keyboardText ++ "\x7d"

/-- The state as shown beside the screen. -/
def statusLines (s : State) : List String :=
  ["Memory: " ++ Numeral.decimal s.memory.size ++ " bytes",
   "Registers: " ++ s.registersText,
   "I: " ++ wordText s.index ++ " " ++ s.countersText ++ s.timersText,
   s.keyboardText]

end State

end Chip8
