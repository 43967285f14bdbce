import Chip8.Terminal.Key
import Chip8.Text.Numeral

/-!
# Bytes of a keyboard

A terminal in raw mode sends bytes : a character as UTF-8, a `ctrl` letter as a control
byte, and other keys as sequences that begin with escape. `KeyInput.decode` finds the key
events in what was received at once. An escape that nothing follows is the key itself.
Bytes that begin no event are dropped, and so is pasted text with the marks around it.

Among the keys a terminal sends reports, such as the position of the cursor. A report is no
event, but those behind it are taken later than those before it. Hence events are decoded
into groups, and `KeyInput.decode` gives one group more than there are reports.
-/

namespace Chip8

namespace KeyInput

/-- What the bytes read so far amount to. -/
inductive Reading where
  /-- The beginning of something. -/
  | incomplete
  /-- Something else than a key, or nothing at all. -/
  | ignored
  /-- A key event. -/
  | key (event : KeyEvent)
  /-- A report of the terminal. -/
  | report

/-- A key without modifiers. -/
def plain (code : KeyCode) : Reading := .key { code := code }

/-- The press of a key without modifiers, if there is a key. -/
def plain? (code : Option KeyCode) : Reading := (code.map plain).getD .ignored

/-! ## Fields -/

/-- The parts of a text between separators. -/
def parts (separator : Char) : List Char → List (List Char)
  | [] => [[]]
  | c :: cs =>
    if c = separator then [] :: parts separator cs
    else
      match parts separator cs with
      | p :: ps => (c :: p) :: ps
      | [] => [[c]]

/-- A field that holds a decimal number below `limit`. -/
def number? (limit : Nat) (field : List Char) : Option Nat := Numeral.readSigned? 10 limit field

/-- The modifiers of a number, which is one more than their sum. -/
def modifiersOf (n : Nat) : Modifiers :=
  let mask := n - 1
  { ctrl := mask.testBit 2, shift := mask.testBit 0, alt := mask.testBit 1 }

/-- The kind of event of a number. -/
def kindOf : Nat → KeyEventKind
  | 2 => .repeated
  | 3 => .release
  | _ => .press

/-- The modifiers in the second field, and the kind of event behind a colon. An event without
a kind is a press. -/
def held? (fields : List (List Char)) : Option (Modifiers × KeyEventKind) :=
  match (fields[1]?).map (parts ':') with
  | some (modifiers :: kinds) =>
    (number? 256 modifiers).map fun n =>
      (modifiersOf n, kindOf ((kinds.head?.bind (number? 256)).getD 1))
  | _ => none

/-- A press without modifiers. -/
def pressed : Modifiers × KeyEventKind := ({}, .press)

theorem parts_ne_nil (separator : Char) (cs : List Char) : parts separator cs ≠ [] := by
  cases cs with
  | nil => simp [parts]
  | cons c cs =>
    rw [parts]
    split
    · simp
    · split <;> simp

/-! ## Letters and numbers -/

/-- The keys that end a sequence with a letter. -/
def letterKey? : Char → Option KeyCode
  | 'A' => some .up
  | 'B' => some .down
  | 'C' => some .right
  | 'D' => some .left
  | 'F' => some .last
  | 'H' => some .home
  | 'P' => some (.function 1)
  | 'Q' => some (.function 2)
  | 'R' => some (.function 3)
  | 'S' => some (.function 4)
  | _ => none

/-- The keys that a number tells apart. -/
def numberedKey? (n : Nat) : Option KeyCode :=
  if n = 1 ∨ n = 7 then some .home
  else if n = 2 then some .insert
  else if n = 3 then some .delete
  else if n = 4 ∨ n = 8 then some .last
  else if n = 5 then some .pageUp
  else if n = 6 then some .pageDown
  else if 11 ≤ n ∧ n ≤ 15 then some (.function (UInt8.ofNat (n - 10)))
  else if 17 ≤ n ∧ n ≤ 21 then some (.function (UInt8.ofNat (n - 11)))
  else if 23 ≤ n ∧ n ≤ 26 then some (.function (UInt8.ofNat (n - 12)))
  else if 28 ≤ n ∧ n ≤ 29 then some (.function (UInt8.ofNat (n - 15)))
  else if 31 ≤ n ∧ n ≤ 34 then some (.function (UInt8.ofNat (n - 17)))
  else none

/-- A sequence that ends with the letter of a key. Where no field holds modifiers, the digit
before the letter does. -/
def readLetter (parameters : List Char) (letter : Char) : Reading :=
  let digit := (parameters.getLast?.bind (Numeral.digitValue? 10)).map fun d =>
    (modifiersOf d, KeyEventKind.press)
  match (held? (parts ';' parameters)).or digit, letterKey? letter with
  | some (modifiers, kind), some code => .key ⟨code, modifiers, kind⟩
  | _, _ => .ignored

/-- A sequence whose first field is the number of a key. -/
def readNumbered (parameters : List Char) : Reading :=
  let fields := parts ';' parameters
  let (modifiers, kind) := (held? fields).getD pressed
  match (number? 256 (fields.headD [])).bind numberedKey? with
  | some code => .key ⟨code, modifiers, kind⟩
  | none => .ignored

/-! ## Code points -/

/-- The keys of a number pad, in the order of their code points from 57399 on. -/
def keypadKeys : List KeyCode :=
  ['0', '1', '2', '3', '4', '5', '6', '7', '8', '9', '.', '/', '*', '-', '+'].map .char
    ++ [.enter, .char '=', .char ',', .left, .right, .up, .down, .pageUp, .pageDown, .home,
      .last, .insert, .delete]

/-- The keys with a code point outside the characters : locks, function keys beyond the
twelfth, the number pad, media keys and modifiers. -/
def functionalKey? (n : Nat) : Option KeyCode :=
  if 57358 ≤ n ∧ n ≤ 57363 then some (.special n)
  else if 57376 ≤ n ∧ n ≤ 57398 then some (.function (UInt8.ofNat (n - 57363)))
  else if 57399 ≤ n ∧ n ≤ 57426 then keypadKeys[n - 57399]?
  else if 57427 ≤ n ∧ n ≤ 57454 then some (.special n)
  else none

/-- The character with a code point. -/
def character? (n : Nat) : Option Char := if n.isValidChar then some (Char.ofNat n) else none

/-- The key with a code point. -/
def codePointKey? (n : Nat) (shift : Bool) : Option KeyCode :=
  (functionalKey? n).or <|
    if n = 27 then some .escape
    else if n = 13 then some .enter
    else if n = 9 then some (if shift then .backTab else .tab)
    else if n = 127 then some .backspace
    else (character? n).map .char

/-- The modifiers, with the one that a modifier key is itself. -/
def withOwn (modifiers : Modifiers) (code : KeyCode) : Modifiers :=
  { ctrl := modifiers.ctrl || code = .special 57442 || code = .special 57448
    shift := modifiers.shift || code = .special 57441 || code = .special 57447
    alt := modifiers.alt || code = .special 57443 || code = .special 57449 }

/-- A sequence whose first field is a code point. With shift, the character of a second code
point behind a colon takes its place. -/
def readCodePoint (parameters : List Char) : Reading :=
  let fields := parts ';' parameters
  let points := (parts ':' (fields.headD [])).map (number? UInt32.size)
  let (modifiers, kind) := (held? fields).getD pressed
  match (points.headD none).bind (codePointKey? · modifiers.shift) with
  | none => .ignored
  | some code =>
    let modifiers := withOwn modifiers code
    match ((points[1]?).getD none).bind character? with
    | some shifted =>
      if modifiers.shift then .key ⟨.char shifted, { modifiers with shift := false }, kind⟩
      else .key ⟨code, modifiers, kind⟩
    | none => .key ⟨code, modifiers, kind⟩

/-! ## Sequences -/

/-- The position of the cursor : a row and a column. -/
def readPosition (parameters : List Char) : Reading :=
  match (parts ';' parameters).map (number? UInt16.size) with
  | some _ :: some _ :: _ => .report
  | _ => .ignored

/-- Bytes as text, if they are UTF-8. -/
def text? (bytes : List UInt8) : Option (List Char) :=
  (String.fromUTF8? ⟨bytes.toArray⟩).map String.toList

/-- A sequence with parameters and a final character. -/
def readParameters (parameters : List UInt8) (final : Char) : Reading :=
  match text? parameters with
  | none => .ignored
  | some parameters =>
    match final with
    | 'M' => .ignored
    | '~' => readNumbered parameters
    | 'u' => readCodePoint parameters
    | 'R' => readPosition parameters
    | _ => readLetter parameters final

/-- The parameters that begin pasted text. -/
def pasteMark : List UInt8 := [0x32, 0x30, 0x30, 0x7E]

/-- The sequence that ends pasted text. -/
def pasteEnd : List UInt8 := [0x1B, 0x5B, 0x32, 0x30, 0x31, 0x7E]

/-- A sequence that begins with a digit. It goes on up to a byte between 64 and 126. -/
def readDigits (bytes : List UInt8) : Reading :=
  match bytes.getLast? with
  | none => .incomplete
  | some final =>
    if bytes.length = 1 ∨ final < 64 ∨ 126 < final then .incomplete
    else if pasteMark.isPrefixOf bytes then
      if pasteEnd.isSuffixOf bytes then .ignored else .incomplete
    else readParameters bytes.dropLast (Char.ofUInt8 final)

/-- An event of the mouse, which ends with either of two letters. -/
def readMouse (bytes : List UInt8) : Reading :=
  match bytes.getLast? with
  | some final => if final = 0x4D ∨ final = 0x6D then .ignored else .incomplete
  | none => .incomplete

/-- A report of what the terminal can do. -/
def readAbility (bytes : List UInt8) : Reading :=
  match bytes.getLast? with
  | some final =>
    if final = 0x63 ∨ (final = 0x75 ∧ 2 ≤ bytes.length) then .report else .incomplete
  | none => .incomplete

/-- One of five function keys, behind two brackets. -/
def readFunction : List UInt8 → Reading
  | [] => .incomplete
  | b :: _ => if 65 ≤ b ∧ b ≤ 69 then plain (.function (b - 64)) else .ignored

/-- A sequence behind `ESC [`. -/
def readBracket : List UInt8 → Reading
  | [] => .incomplete
  | b :: bytes =>
    match Char.ofUInt8 b with
    | '[' => readFunction bytes
    | 'Z' => .key { code := .backTab, modifiers := { shift := true } }
    | 'M' => if bytes.length < 3 then .incomplete else .ignored
    | '<' => readMouse bytes
    | '?' => readAbility bytes
    | 'R' => .ignored
    | c => if 48 ≤ b ∧ b ≤ 57 then readDigits (b :: bytes) else plain? (letterKey? c)

/-- A sequence behind `ESC O`. -/
def readShift : List UInt8 → Reading
  | [] => .incomplete
  | b :: _ => plain? (letterKey? (Char.ofUInt8 b))

/-! ## Single keys -/

/-- The number of bytes that a character of UTF-8 takes, by its first one. -/
def utf8Length? (b : UInt8) : Option Nat :=
  if b < 0x80 then some 1
  else if 0xC0 ≤ b ∧ b ≤ 0xDF then some 2
  else if 0xE0 ≤ b ∧ b ≤ 0xEF then some 3
  else if 0xF0 ≤ b ∧ b ≤ 0xF7 then some 4
  else none

/-- A character of UTF-8. -/
def readCharacter (bytes : List UInt8) : Reading :=
  match text? bytes with
  | some (c :: _) => plain (.char c)
  | some [] => .ignored
  | none =>
    match utf8Length? (bytes.headD 0) with
    | none => .ignored
    | some n =>
      if (bytes.drop 1).any (fun b => b < 0x80 ∨ 0xBF < b) ∨ n ≤ bytes.length then .ignored
      else .incomplete

/-- A key whose first byte is not escape. -/
def readPlain (bytes : List UInt8) : Reading :=
  let b := bytes.headD 0
  if b = 0x0D then plain .enter
  else if b = 0x09 then plain .tab
  else if b = 0x7F then plain .backspace
  else if b = 0 then .key { code := .char ' ', modifiers := { ctrl := true } }
  else if 0x01 ≤ b ∧ b ≤ 0x1A then
    .key { code := .char (Char.ofNat (b.toNat + 96)), modifiers := { ctrl := true } }
  else if 0x1C ≤ b ∧ b ≤ 0x1F then
    .key { code := .char (Char.ofNat (b.toNat + 24)), modifiers := { ctrl := true } }
  else readCharacter bytes

/-- A key with `alt` besides its other modifiers. -/
def withAlt : Reading → Reading
  | .key e => .key { e with modifiers := { e.modifiers with alt := true } }
  | r => r

/-- The bytes read so far; `more` tells whether others wait behind them. -/
def read (bytes : List UInt8) (more : Bool) : Reading :=
  match bytes with
  | [] => .incomplete
  | [0x1B] => if more then .incomplete else plain .escape
  | 0x1B :: 0x1B :: _ => plain .escape
  | 0x1B :: 0x4F :: rest => readShift rest
  | 0x1B :: 0x5B :: rest => readBracket rest
  | 0x1B :: rest => withAlt (readPlain rest)
  | _ => readPlain bytes

/-! ## Groups of events -/

/-- The groups of key events in bytes, with those in `buffer` read before and the events of
`group` already found. -/
def decodeFrom (group : List KeyEvent) (buffer : List UInt8) : List UInt8 → List (List KeyEvent)
  | [] => [group.reverse]
  | b :: bs =>
    let buffer := buffer ++ [b]
    match read buffer (!bs.isEmpty) with
    | .incomplete => decodeFrom group buffer bs
    | .ignored => decodeFrom group [] bs
    | .key e => decodeFrom (e :: group) [] bs
    | .report => group.reverse :: decodeFrom [] [] bs

/-- The groups of key events in bytes that were received at once. -/
def decode (bytes : List UInt8) : List (List KeyEvent) := decodeFrom [] [] bytes

@[simp] theorem decode_nil : decode [] = [[]] := rfl

theorem decodeFrom_ne_nil (group : List KeyEvent) (buffer bytes : List UInt8) :
    decodeFrom group buffer bytes ≠ [] := by
  induction bytes generalizing group buffer with
  | nil => simp [decodeFrom]
  | cons b bs ih =>
    rw [decodeFrom]
    split
    · exact ih _ _
    · exact ih _ _
    · exact ih _ _
    · simp

end KeyInput

end Chip8
