import Chip8.Fault
import Chip8.Json.Value

/-!
# Settings as JSON

`Settings.ofText` reads settings from a JSON object with a member for each field, or from
an array of the fields in their order; a field that is missing keeps its default. Members
with other keys are ignored, a field given twice is an error, and so is an array with too
many items. `Settings.toText` writes an object with all fields, one to a line.
-/

namespace Chip8

namespace Settings

/-! ## Fields -/

/-- The fields of settings. -/
inductive Field where
  | memorySize
  | stackSize
  | width
  | height
  | compactLayout
  | legacyMode
  deriving DecidableEq, Repr

namespace Field

/-- All fields, in the order in which they are written. -/
def all : List Field := [memorySize, stackSize, width, height, compactLayout, legacyMode]

/-- The key of a field. -/
def key : Field → String
  | memorySize => "memory_size"
  | stackSize => "stack_size"
  | width => "width"
  | height => "height"
  | compactLayout => "compact_layout"
  | legacyMode => "legacy_mode"

/-- The field with a key. -/
def ofKey? (key : List Char) : Option Field := all.find? fun f => f.key.toList = key

/-- The value of a field, as it is written. -/
def valueText (s : Settings) : Field → String
  | memorySize => Numeral.decimal s.memorySize.toNat
  | stackSize => Numeral.decimal s.stackSize.toNat
  | width => Numeral.decimal s.width.toNat
  | height => Numeral.decimal s.height.toNat
  | compactLayout => if s.compactLayout then "true" else "false"
  | legacyMode => if s.legacyMode then "true" else "false"

/-- A size : a natural number of 64 bits. -/
def size? : Json → Option UInt64
  | .number n => (n.nat? UInt64.size).map UInt64.ofNat
  | _ => none

/-- A number of pixels : a natural number of eight bits. -/
def pixels? : Json → Option UInt8
  | .number n => (n.nat? UInt8.size).map UInt8.ofNat
  | _ => none

/-- A switch. -/
def switch? : Json → Option Bool
  | .bool b => some b
  | _ => none

/-- The settings `s` with a field set to a value of its kind. -/
def set? (s : Settings) (value : Json) : Field → Option Settings
  | memorySize => (size? value).map fun n => { s with memorySize := n }
  | stackSize => (size? value).map fun n => { s with stackSize := n }
  | width => (pixels? value).map fun n => { s with width := n }
  | height => (pixels? value).map fun n => { s with height := n }
  | compactLayout => (switch? value).map fun b => { s with compactLayout := b }
  | legacyMode => (switch? value).map fun b => { s with legacyMode := b }

end Field

/-! ## Reading -/

/-- Sets fields to the items of an array, one after the other. -/
def readItems (s : Settings) : List Field → List Json → Option Settings
  | _, [] => some s
  | f :: fs, v :: vs => (f.set? s v).bind fun s => readItems s fs vs
  | [], _ :: _ => none

/-- Sets the fields that the members of an object name, those in `seen` no more. -/
def readMembers (s : Settings) (seen : List Field) :
    List (List Json.Piece × Json) → Option Settings
  | [] => some s
  | (key, value) :: members =>
    match Json.characters? key with
    | none => none
    | some key =>
      match Field.ofKey? key with
      | none => readMembers s seen members
      | some f =>
        if f ∈ seen then none
        else (f.set? s value).bind fun s => readMembers s (f :: seen) members

/-- The settings that a JSON value describes. -/
def ofJson? : Json → Option Settings
  | .array items => readItems {} Field.all items
  | .object members => readMembers {} [] members
  | _ => none

/-- The settings that a text describes. -/
def ofText (text : String) : Except Fault Settings :=
  match (Json.parse text.toList).bind ofJson? with
  | some s => .ok s
  | none => .error (.invalidSettings .malformed)

/-- The settings in a file with the given bytes. -/
def ofBytes (bytes : ByteArray) : Except Fault Settings :=
  match String.fromUTF8? bytes with
  | some text => ofText text
  | none => .error (.file .notText)

/-! ## Writing -/

/-- The member of a field : two blanks, the key in quotes and the value. -/
def memberText (s : Settings) (f : Field) : String :=
  "  \"" ++ f.key ++ "\": " ++ f.valueText s

/-- All fields as a JSON object. -/
def toText (s : Settings) : String :=
  "\x7b\n" ++ ",\n".intercalate (Field.all.map s.memberText) ++ "\n\x7d"

end Settings

end Chip8
