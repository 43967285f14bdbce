import Chip8.Record
import Chip8.Text.Blank

/-!
# Listings

A listing shows the records of a program in five columns under a header, addressed from
`programStart` on. A column is as wide as its widest cell, the last one is not padded, and
blanks at the end of a line are dropped.

Cells are padded before they are styled, so that escape sequences do not count. A style
wraps its text in a sequence `ESC [ code m` and the reset `ESC [ 0 m`.
-/

namespace Chip8

/-! ## Styles -/

/-- The styles of a listing. -/
inductive Style where
  | bold
  | brightBlack
  | yellow
  | red
  | brightGreen
  | cyan
  deriving DecidableEq, Repr

namespace Style

/-- The number that selects a style. -/
def code : Style → Nat
  | bold => 1
  | brightBlack => 90
  | yellow => 33
  | red => 31
  | brightGreen => 92
  | cyan => 36

/-- The escape sequence that sets the graphic rendition `code`. -/
def escape (code : Nat) : List Char := '\x1b' :: '[' :: (Numeral.digits 10 code ++ ['m'])

/-- A text in a style, if it has one. -/
def paint (style : Option Style) (text : List Char) : List Char :=
  match style with
  | none => text
  | some s => escape s.code ++ text ++ escape 0

@[simp] theorem paint_none (text : List Char) : paint none text = text := rfl

end Style

/-! ## Columns -/

namespace Listing

/-- The columns of a listing. -/
inductive Column where
  | address
  | opcode
  | assembly
  | ascii
  | description
  deriving DecidableEq, Repr

namespace Column

/-- The columns that are padded, from left to right. -/
def padded : List Column := [address, opcode, assembly, ascii]

/-- What stands above a column. -/
def title : Column → List Char
  | address => "addr".toList
  | opcode => "opcode".toList
  | assembly => "pseudo-code".toList
  | ascii => "ascii".toList
  | description => "description".toList

/-- The style of a cell; data that is no operation stands out. -/
def style (raw : Bool) : Column → Option Style
  | address => some .brightBlack
  | opcode => some .yellow
  | assembly => some (if raw then .red else .brightGreen)
  | ascii => some .cyan
  | description => none

end Column

/-- A record and the address of its first byte. -/
structure Row where
  /-- The address of the first byte. -/
  address : Nat
  /-- The record. -/
  record : Record
  deriving DecidableEq, Repr

namespace Row

/-- The text of a row in a column. -/
def cell (r : Row) : Column → List Char
  | .address => Numeral.padded 16 4 r.address
  | .opcode => r.record.opcodeText.toList
  | .assembly => r.record.text.toList
  | .ascii =>
    match r.record.ascii with
    | some text => ('\x60' :: text.toList) ++ ['\x60']
    | none => []
  | .description => r.record.description.toList

end Row

/-- The rows of `rs`, the first of them at `address`, behind those already made. -/
def rowsFrom (made : List Row) (address : Nat) : List Record → List Row
  | [] => made.reverse
  | r :: rs => rowsFrom (⟨address, r⟩ :: made) (address + r.size) rs

/-- The rows of a program that is loaded at `programStart`. -/
def rows (rs : List Record) : List Row := rowsFrom [] programStart rs

theorem rowsFrom_eq (made : List Row) (address : Nat) (rs : List Record) :
    rowsFrom made address rs = made.reverse ++ rowsFrom [] address rs := by
  induction rs generalizing made address with
  | nil => simp [rowsFrom]
  | cons r rs ih =>
    simp only [rowsFrom]
    rw [ih (⟨address, r⟩ :: made), ih [⟨address, r⟩]]
    simp

/-- The width of a column : its title and all its cells fit. -/
def width (rs : List Row) (c : Column) : Nat :=
  rs.foldl (fun w r => max w (r.cell c).length) c.title.length

/-- The widths of the columns. -/
structure Widths where
  /-- The width of the addresses. -/
  address : Nat
  /-- The width of the opcodes. -/
  opcode : Nat
  /-- The width of the assembly. -/
  assembly : Nat
  /-- The width of the characters. -/
  ascii : Nat
  /-- The width of the descriptions. -/
  description : Nat
  deriving DecidableEq, Repr

/-- The width of a column. -/
def Widths.of (w : Widths) : Column → Nat
  | .address => w.address
  | .opcode => w.opcode
  | .assembly => w.assembly
  | .ascii => w.ascii
  | .description => w.description

/-- The widths that the rows need. -/
def widths (rs : List Row) : Widths :=
  ⟨width rs .address, width rs .opcode, width rs .assembly, width rs .ascii,
    width rs .description⟩

@[simp] theorem of_widths (rs : List Row) (c : Column) : (widths rs).of c = width rs c := by
  cases c <;> rfl

/-! ## Lines -/

/-- What separates two columns. -/
def gap : List Char := [' ', ' ']

/-- A line of cells, without its end. -/
def line (width : Column → Nat) (style : Column → Option Style) (cell : Column → List Char) :
    List Char :=
  Text.trimEnd
    ((Column.padded.flatMap fun c => Style.paint (style c) ((cell c).rightpad (width c) ' ') ++ gap)
      ++ Style.paint (style .description) (cell .description))

/-- The style of a cell in a row, if cells are coloured. -/
def rowStyle (color : Bool) (r : Row) (c : Column) : Option Style :=
  if color then c.style r.record.operation.isRaw else none

/-- The style of a title, if cells are coloured. -/
def titleStyle (color : Bool) (_ : Column) : Option Style :=
  if color then some .bold else none

/-- The lines of a listing : the header, then a line for every row. -/
def lines (color : Bool) (rs : List Row) : List (List Char) :=
  let w := widths rs
  line w.of (titleStyle color) Column.title :: rs.map fun r => line w.of (rowStyle color r) r.cell

end Listing

/-- The listing of records, every line ended. -/
def listing (color : Bool) (rs : List Record) : String :=
  String.ofList ((Listing.lines color (Listing.rows rs)).flatMap (· ++ ['\n']))

end Chip8
