import Chip8.Overflow
import Chip8.Text.Numeral

/-!
# Terminal commands

What is sent to a terminal, as data : cursor movements, text, and the switches of its
modes. `Terminal.Command.text` is the escape sequence of a command. Columns and rows count
from zero here and from one in the sequences. `Terminal.Sent` is what was sent by an operation
that an overflow may stop.
-/

namespace Chip8

namespace Terminal

/-- A command to a terminal. -/
inductive Command where
  /-- Moves the cursor. -/
  | moveTo (column row : UInt16)
  /-- Prints text at the cursor. -/
  | print (text : String)
  /-- Blanks the row of the cursor, from the cursor on. -/
  | clearLine
  /-- Blanks everything. -/
  | clearAll
  /-- Makes the cursor visible. -/
  | showCursor
  /-- Makes the cursor invisible. -/
  | hideCursor
  /-- Switches to the alternate screen. -/
  | enterAlternate
  /-- Switches back from the alternate screen. -/
  | leaveAlternate
  /-- Resets colours and styles. -/
  | resetStyle
  deriving DecidableEq, Repr

namespace Command

/-- An escape sequence that begins with `ESC [`. -/
def sequence (body : String) : String := "\x1b[" ++ body

/-- The text that carries out a command. -/
def text : Command → String
  | moveTo column row =>
    sequence (Numeral.decimal (row.toNat + 1) ++ ";" ++ Numeral.decimal (column.toNat + 1) ++ "H")
  | print text => text
  | clearLine => sequence "K"
  | clearAll => sequence "2J"
  | showCursor => sequence "?25h"
  | hideCursor => sequence "?25l"
  | enterAlternate => sequence "?1049h"
  | leaveAlternate => sequence "?1049l"
  | resetStyle => sequence "0m"

/-- The text that carries out commands, one after the other. -/
def render (commands : List Command) : String := String.join (commands.map text)

end Command

/-- The commands that an operation sent, and the overflow that stopped it, if one did. -/
structure Sent where
  /-- The commands, in order. -/
  commands : List Command := []
  /-- Why nothing was sent behind them. -/
  stop : Option Overflow := none
  deriving DecidableEq, Repr

/-- Sends commands piece by piece, up to the first piece that is an overflow. -/
def Sent.ofPieces : List (Except Overflow (List Command)) → Sent
  | [] => {}
  | .error overflow :: _ => { stop := some overflow }
  | .ok piece :: pieces =>
    let rest := ofPieces pieces
    { rest with commands := piece ++ rest.commands }

/-- Pieces that are no overflow are sent as a whole. -/
theorem Sent.ofPieces_map_ok_append {α : Type} (f : α → List Command) (items : List α)
    (pieces : List (Except Overflow (List Command))) :
    ofPieces (items.map (fun a => .ok (f a)) ++ pieces) =
      { ofPieces pieces with commands := items.flatMap f ++ (ofPieces pieces).commands } := by
  induction items with
  | nil => rfl
  | cons a items ih =>
    rw [List.map_cons, List.cons_append, ofPieces, ih, List.flatMap_cons, List.append_assoc]

end Terminal

end Chip8
