import Chip8.Text.Numeral

/-!
# Machine settings

What is fixed when a machine is built : the size of memory and of the call stack, the
geometry of the screen, and two switches. `Settings.validate` reports the first constraint
that a value violates.

In the compact layout the call stack and the screen have to fit the windows of memory in
which the first interpreters kept them (`stackWindow`, `screenWindow`), which limits their
sizes and asks for enough memory.
-/

namespace Chip8

/-! ## Layout of memory -/

/-- The address at which programs are loaded; everything below is reserved. -/
def programStart : Nat := 0x200

/-- The largest memory : all that sixteen bits can address. -/
def memoryLimit : Nat := 0x10000

/-- Where the compact layout shows the call stack. -/
def stackWindow : Nat := 0xEA0

/-- Where the compact layout shows the screen. -/
def screenWindow : Nat := 0xF00

/-- The most return addresses that fit the stack window. -/
def compactStackLimit : Nat := 12

/-- The most pixels that fit the screen window. -/
def compactPixelLimit : Nat := 2048

/-- The least width of a screen. -/
def widthMinimum : Nat := 8

/-- The least height of a screen. -/
def heightMinimum : Nat := 15

/-! ## Settings -/

/-- The configuration of a machine. -/
structure Settings where
  /-- Bytes of memory. -/
  memorySize : UInt64 := 0x1000
  /-- Nested calls at most. -/
  stackSize : UInt64 := 12
  /-- Pixels in a row. -/
  width : UInt8 := 64
  /-- Rows of pixels. -/
  height : UInt8 := 32
  /-- Whether the stack and the screen keep to their windows of memory. -/
  compactLayout : Bool := true
  /-- Whether shifts read `VY` and register blocks move the index register. -/
  legacyMode : Bool := false
  deriving DecidableEq, Repr

instance : Inhabited Settings := ⟨{}⟩

/-- Why settings are refused. -/
inductive SettingsError where
  /-- The text is no JSON, or not of the right shape. -/
  | malformed
  /-- The width is no multiple of eight. -/
  | widthUnaligned (width : UInt8)
  /-- The height is no multiple of eight. -/
  | heightUnaligned (height : UInt8)
  /-- The screen is too narrow. -/
  | widthTooSmall (width : UInt8)
  /-- The screen is too low. -/
  | heightTooSmall (height : UInt8)
  /-- Memory does not reach the program, or exceeds the address space. -/
  | memoryOutOfRange (size : UInt64)
  /-- There is no room for a return address. -/
  | stackEmpty
  /-- The stack does not fit its window. -/
  | stackTooDeep (size : UInt64)
  /-- The screen does not fit its window. -/
  | tooManyPixels (pixels : Nat)
  /-- Memory ends before the screen window does. -/
  | memoryTooSmall (needed : Nat) (size : UInt64)
  deriving DecidableEq, Repr

namespace SettingsError

/-- The wording of an error. -/
def message : SettingsError → String
  | malformed => "Failed to parse settings"
  | widthUnaligned w => "Width must be a multiple of 8, got " ++ Numeral.decimal w.toNat ++ "."
  | heightUnaligned h => "Height must be a multiple of 8, got " ++ Numeral.decimal h.toNat ++ "."
  | widthTooSmall w =>
    "Width must be >= " ++ Numeral.decimal widthMinimum ++ ", got "
      ++ Numeral.decimal w.toNat ++ "."
  | heightTooSmall h =>
    "Height must be >= " ++ Numeral.decimal heightMinimum ++ ", got "
      ++ Numeral.decimal h.toNat ++ "."
  | memoryOutOfRange m =>
    "MemorySize must be between " ++ Numeral.prefixedHex 1 programStart ++ " and "
      ++ Numeral.prefixedHex 1 memoryLimit ++ ", got " ++ Numeral.prefixedHex 1 m.toNat ++ "."
  | stackEmpty => "StackSize must be >= 1, got 0."
  | stackTooDeep n =>
    "StackSize must be <= " ++ Numeral.decimal compactStackLimit ++ " in compact layout, got "
      ++ Numeral.decimal n.toNat ++ "."
  | tooManyPixels n =>
    "Width*Height must be <= " ++ Numeral.decimal compactPixelLimit
      ++ " in compact layout, got " ++ Numeral.decimal n ++ "."
  | memoryTooSmall needed m =>
    "MemorySize must be >= " ++ Numeral.prefixedHex 1 needed ++ " in compact layout, got "
      ++ Numeral.prefixedHex 1 m.toNat ++ "."

end SettingsError

namespace Settings

/-- The number of pixels. -/
def pixels (s : Settings) : Nat := s.width.toNat * s.height.toNat

/-- The bytes of a screen, eight pixels to a byte. -/
def screenBytes (s : Settings) : Nat := s.pixels / 8

/-- The constraints of the compact layout. -/
def validateCompact (s : Settings) : Except SettingsError Unit :=
  if compactStackLimit < s.stackSize.toNat then .error (.stackTooDeep s.stackSize)
  else if compactPixelLimit < s.pixels then .error (.tooManyPixels s.pixels)
  else if s.memorySize.toNat < screenWindow + s.screenBytes then
    .error (.memoryTooSmall (screenWindow + s.screenBytes) s.memorySize)
  else .ok ()

/-- Nothing, or the first constraint that is violated. -/
def validate (s : Settings) : Except SettingsError Unit :=
  if s.width.toNat % 8 ≠ 0 then .error (.widthUnaligned s.width)
  else if s.height.toNat % 8 ≠ 0 then .error (.heightUnaligned s.height)
  else if s.width.toNat < widthMinimum then .error (.widthTooSmall s.width)
  else if s.height.toNat < heightMinimum then .error (.heightTooSmall s.height)
  else if s.memorySize.toNat < programStart ∨ memoryLimit < s.memorySize.toNat then
    .error (.memoryOutOfRange s.memorySize)
  else if s.stackSize = 0 then .error .stackEmpty
  else if s.compactLayout then s.validateCompact
  else .ok ()

/-- Settings that violate no constraint. -/
def Valid (s : Settings) : Prop := s.validate = .ok ()

theorem valid_default : ({} : Settings).Valid := by
  simp [Valid, validate, validateCompact, screenBytes, pixels, widthMinimum, heightMinimum,
    programStart, memoryLimit, compactStackLimit, compactPixelLimit, screenWindow]

end Settings

end Chip8
