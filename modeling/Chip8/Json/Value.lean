import Chip8.Json.Token

/-!
# JSON values

`Json.parse` reads a text that holds one value. The containers around the place that is
read are kept on a list (`Frame`), so values may nest to any depth. Members of an object
stay in order and may repeat; a string is kept as its pieces.
-/

namespace Chip8

/-- A JSON value. -/
inductive Json where
  | null
  | bool (value : Bool)
  | number (value : Json.Number)
  | string (pieces : List Json.Piece)
  | array (items : List Json)
  | object (members : List (List Json.Piece × Json))

namespace Json

/-- A container that is not closed yet; what it holds so far stands in reverse. -/
inductive Frame where
  /-- An array. -/
  | array (items : List Json)
  /-- An object, and the key of the member that is being read. -/
  | object (members : List (List Piece × Json)) (key : List Piece)

mutual

/-- Reads a value inside `frames`. An array that was just opened may be `closable`. -/
def readValue (closable : Option (List Frame)) (frames : List Frame) :
    List Token → Option Json
  | .null :: ts => readAfter .null frames ts
  | .bool b :: ts => readAfter (.bool b) frames ts
  | .number n :: ts => readAfter (.number n) frames ts
  | .string s :: ts => readAfter (.string s) frames ts
  | .openBracket :: ts => readValue (some frames) (.array [] :: frames) ts
  | .openBrace :: ts => readKey true [] frames ts
  | .closeBracket :: ts =>
    match closable with
    | some outer => readAfter (.array []) outer ts
    | none => none
  | _ => none

/-- Reads a key of an object with the given members, or, if `closable`, its end. -/
def readKey (closable : Bool) (members : List (List Piece × Json)) (frames : List Frame) :
    List Token → Option Json
  | .string key :: .colon :: ts => readValue none (.object members key :: frames) ts
  | .closeBrace :: ts => if closable then readAfter (.object []) frames ts else none
  | _ => none

/-- Reads on behind a value. -/
def readAfter (value : Json) (frames : List Frame) (tokens : List Token) : Option Json :=
  match frames, tokens with
  | [], [] => some value
  | .array items :: frames, .comma :: ts => readValue none (.array (value :: items) :: frames) ts
  | .array items :: frames, .closeBracket :: ts =>
    readAfter (.array (value :: items).reverse) frames ts
  | .object members key :: frames, .comma :: ts =>
    readKey false ((key, value) :: members) frames ts
  | .object members key :: frames, .closeBrace :: ts =>
    readAfter (.object ((key, value) :: members).reverse) frames ts
  | _, _ => none

end

/-- The value of a text that holds one value and nothing else. -/
def parse (text : List Char) : Option Json := (lex text).bind (readValue none [])

end Json

end Chip8
