import Chip8.Binary64
import Chip8.Text.Blank

/-!
# Numbers and frequencies of a command line

`readNumber` reads a word of 64 bits in decimal, or in hex behind `0x`. `readFrequency`
reads a number of cycles per second : a whole number, or a decimal numeral with a unit. A
numeral with a unit is rounded to binary64, multiplied there, and cut to its whole part.
Blanks around the text are ignored in both.
-/

namespace Chip8

/-! ## Numbers -/

/-- Why a text is no number. The text is kept without the blanks around it. -/
inductive NumberError where
  | badHex (text : List Char)
  | badDecimal (text : List Char)
  deriving DecidableEq, Repr

/-- The wording of a number error. -/
def NumberError.message : NumberError → String
  | badHex text => "Invalid hex value: " ++ String.ofList text
  | badDecimal text => "Invalid value: " ++ String.ofList text

/-- The hex digits behind `0x`, if a text starts so. -/
def hexDigits? : List Char → Option (List Char)
  | '0' :: 'x' :: cs => some cs
  | '0' :: 'X' :: cs => some cs
  | _ => none

/-- The word that a text denotes. -/
def readNumber (text : List Char) : Except NumberError UInt64 :=
  let text := Text.trim text
  match hexDigits? text with
  | some ds =>
    match Numeral.readSigned? 16 UInt64.size ds with
    | some n => .ok (UInt64.ofNat n)
    | none => .error (.badHex text)
  | none =>
    match Numeral.readSigned? 10 UInt64.size text with
    | some n => .ok (UInt64.ofNat n)
    | none => .error (.badDecimal text)

/-! ## Frequencies -/

/-- Why a text is no frequency. The text is kept without the blanks around it. -/
inductive FrequencyError where
  /-- What stands before the unit is no decimal numeral. -/
  | badNumeral (text : List Char)
  /-- A text without a unit is no whole number. -/
  | badInteger (text : List Char)
  /-- The frequency is zero, or its whole part is. -/
  | notPositive (text : List Char)
  deriving DecidableEq, Repr

/-- The wording of a frequency error. -/
def FrequencyError.message : FrequencyError → String
  | badNumeral text => "Invalid numeric value: " ++ String.ofList text
  | badInteger text => "Invalid frequency value: " ++ String.ofList text
  | notPositive text => "Frequency must be positive: " ++ String.ofList text

/-- The units of frequency with their sizes; the last one ends all the others. -/
def frequencyUnits : List (List Char × Nat) :=
  [(['M', 'H', 'z'], 1000000), (['K', 'H', 'z'], 1000), (['k', 'H', 'z'], 1000), (['H', 'z'], 1)]

/-- The numeral before a unit and the size of the unit, for the first unit that fits. -/
def splitUnit? (text : List Char) : Option (List Char × Nat) :=
  frequencyUnits.findSome? fun (unit, size) =>
    (Text.stripEnd? unit text).map fun numeral => (numeral, size)

/-- A numeral times the size of a unit, cut to a word. -/
def readScaled (numeral : List Char) (size : Nat) : Except FrequencyError UInt64 :=
  let numeral := Text.trim numeral
  match Binary64.read? numeral with
  | some x => .ok (x.mulNat size).toWord
  | none => .error (.badNumeral numeral)

/-- The cycles per second that a trimmed text denotes, which may be none. -/
def readCycles (text : List Char) : Except FrequencyError UInt64 :=
  match splitUnit? text with
  | some (numeral, size) => readScaled numeral size
  | none =>
    match Numeral.readSigned? 10 UInt64.size text with
    | some n => .ok (UInt64.ofNat n)
    | none => .error (.badInteger text)

/-- The cycles per second that a text denotes, at least one. -/
def readFrequency (text : List Char) : Except FrequencyError UInt64 :=
  let text := Text.trim text
  match readCycles text with
  | .ok hz => if hz = 0 then .error (.notPositive text) else .ok hz
  | .error e => .error e

end Chip8
