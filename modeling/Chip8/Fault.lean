import Chip8.Settings

/-!
# Faults

What can go wrong when a machine is built, loaded and run, or when a program is
disassembled, with the wording of each fault. A fault is a cause; `Fault.message` is its
only text.
-/

namespace Chip8

/-- Why a file cannot be read. -/
inductive FileError where
  /-- There is no such file. -/
  | notFound
  /-- The path names a directory. -/
  | isDirectory
  /-- The bytes are no UTF-8. -/
  | notText
  /-- The system gives another reason. -/
  | other (reason : String)
  deriving DecidableEq, Repr

/-- The wording of a file error. -/
def FileError.message : FileError → String
  | notFound => "No such file or directory (os error 2)"
  | isDirectory => "Is a directory (os error 21)"
  | notText => "stream did not contain valid UTF-8"
  | other reason => reason

/-- What a machine or a disassembly fails with. -/
inductive Fault where
  /-- A program does not fit the memory behind `programStart`. -/
  | outOfMemory (programSize freeMemory : Nat)
  /-- A call with a full stack, or a return with an empty one. -/
  | stackOverflow
  /-- The word at `address` spells no operation. -/
  | invalidInstruction (opcode address : UInt16)
  /-- A block of `length` bytes runs past the last address of sixteen bits. -/
  | arithmeticOverflow (address length : UInt16)
  /-- A block of `length` bytes runs past memory or into its reserved part. -/
  | invalidMemoryAccess (address length : UInt16)
  /-- So many bytes are no sequence of words. -/
  | unsupportedAlignment (length : Nat)
  /-- The settings are refused. -/
  | invalidSettings (cause : SettingsError)
  /-- A file cannot be read. -/
  | file (cause : FileError)
  deriving DecidableEq, Repr

namespace Fault

/-- A word behind `0x`, with four digits. -/
def wordText (word : UInt16) : String := Numeral.prefixedHex 4 word.toNat

/-- The wording of a fault. -/
def message : Fault → String
  | outOfMemory size free =>
    "Not enough memory (program size: " ++ Numeral.decimal size ++ ", free memory: "
      ++ Numeral.decimal free ++ ")"
  | stackOverflow => "Stack overflow"
  | invalidInstruction opcode address =>
    "Tried to execute invalid code: " ++ wordText opcode ++ " at " ++ wordText address
  | arithmeticOverflow address length =>
    "Overflow: " ++ Numeral.decimal length.toNat ++ " bytes from " ++ wordText address
      ++ " exceed the 16-bit address space"
  | invalidMemoryAccess address length =>
    "Tried to access invalid or protected memory: " ++ Numeral.decimal length.toNat
      ++ " bytes at " ++ wordText address
  | unsupportedAlignment length =>
    "Odd-aligned opcodes are not supported (input is " ++ Numeral.decimal length ++ " bytes)"
  | invalidSettings cause => "Invalid settings: " ++ cause.message
  | file cause => "IO error: " ++ cause.message

end Fault

end Chip8
