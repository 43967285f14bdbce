import Chip8.Machine.Summary
import Chip8.Operation.Decode
import Chip8.Operation.Text

/-!
# What a machine logs

Each entry has a level and a line of text.
-/

namespace Chip8

/-- An event that a machine writes to the log. -/
inductive LogEntry where
  /-- The machine was built. -/
  | created (state : State)
  /-- A program of so many bytes was loaded. -/
  | loaded (size : Nat)
  /-- An instruction was fetched. -/
  | fetched (address word : UInt16)
  /-- A wait for a key began. -/
  | awaiting (register : Nibble)
  /-- A wait for a key ended. -/
  | keyStored (key register : Nibble)
  /-- The platform refused data. -/
  | dataRejected (key reason : String)

namespace LogEntry

/-- The level of an entry. -/
def level : LogEntry → String
  | created _ | loaded _ => "INFO"
  | fetched _ _ => "TRACE"
  | awaiting _ | keyStored _ _ => "DEBUG"
  | dataRejected _ _ => "WARN"

/-- The text of an entry. -/
def message : LogEntry → String
  | created state => "Created " ++ state.summary
  | loaded size => "Loaded " ++ Numeral.decimal size ++ " bytes of code"
  | fetched address word =>
    "[" ++ Numeral.hex 4 address.toNat ++ "] " ++ Numeral.hex 4 word.toNat ++ " "
      ++ (Operation.decode word).text
  | awaiting register => "Waiting for a key to land in " ++ Operation.registerName register
  | keyStored key register =>
    "Key " ++ Numeral.hex 1 key.val ++ " stored in " ++ Operation.registerName register
  | dataRejected key reason =>
    "Platform rejected custom data '" ++ key ++ "': " ++ reason

/-- What an operation logs when it is executed. -/
def ofOperation : Operation → List LogEntry
  | .awaitKey x => [.awaiting x]
  | _ => []

/-- The level and the text. -/
def text (e : LogEntry) : String := e.level ++ " " ++ e.message

end LogEntry

end Chip8
