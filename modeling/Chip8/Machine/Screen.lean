/-!
# The screen

A monochrome screen of `width * height` pixels, eight to a byte, row after row, the leftmost
pixel of a byte in its highest bit. A sprite is drawn by exclusive or, eight pixels wide and
a byte for each of its rows; it wraps at the right edge into its own row and at the bottom
edge into the first row.
-/

namespace Chip8

/-- The pixels of a machine. -/
structure Screen where
  /-- Pixels in a row. -/
  width : UInt8
  /-- Rows of pixels. -/
  height : UInt8
  /-- The pixels, eight to a byte. -/
  bytes : Array UInt8
  deriving DecidableEq, Repr

namespace Screen

/-- A screen with all pixels off. -/
def blank (width height : UInt8) : Screen :=
  ⟨width, height, Array.replicate (width.toNat * height.toNat / 8) 0⟩

/-- All pixels off. -/
def clear (s : Screen) : Screen := { s with bytes := Array.replicate s.bytes.size 0 }

/-- Bytes in a row. -/
def byteWidth (s : Screen) : Nat := s.width.toNat / 8

/-- The byte with an index, zero for an index out of range. -/
def byte (s : Screen) (k : Nat) : UInt8 := s.bytes.getD k 0

/-- The index of the byte that holds the pixel in column `x` of row `y`. -/
def byteIndex (s : Screen) (x y : Nat) : Nat := y * s.byteWidth + x / 8

/-- Whether a pixel is on. Coordinates wrap. -/
def pixel (s : Screen) (x y : Nat) : Bool :=
  let x := x % s.width.toNat
  let y := y % s.height.toNat
  (s.byte (s.byteIndex x y)).toNat.testBit (7 - x % 8)

/-! ## Sprites -/

/-- Inverts the pixels of a byte that are set in `bits`; whether one of them was on. -/
def xorByte (s : Screen) (k : Nat) (bits : UInt8) : Screen × Bool :=
  ({ s with bytes := s.bytes.setIfInBounds k (s.byte k ^^^ bits) }, s.byte k &&& bits != 0)

/-- The byte in which the part of a sprite lies that crosses the right end of its byte. -/
def rightIndex (s : Screen) (x y : Nat) : Nat :=
  y * s.byteWidth + (x / 8 + 1) % s.byteWidth

/-- Draws eight pixels from column `x` of row `y` on; whether one of them went off. -/
def drawRow (s : Screen) (x y : Nat) (row : UInt8) : Screen × Bool :=
  let offset := UInt8.ofNat (x % 8)
  let (t, left) := s.xorByte (s.byteIndex x y) (row >>> offset)
  if offset = 0 then (t, left)
  else
    let (t, right) := t.xorByte (s.rightIndex x y) (row <<< (8 - offset))
    (t, left || right)

/-- Draws rows downwards from row `y` on; `hit` tells whether a pixel went off before. -/
def drawRows (s : Screen) (x y : Nat) (hit : Bool) : List UInt8 → Screen × Bool
  | [] => (s, hit)
  | row :: rows =>
    let (t, h) := s.drawRow x y row
    t.drawRows x ((y + 1) % s.height.toNat) (hit || h) rows

/-- Draws a sprite with its upper left corner at a pixel whose coordinates wrap; whether a
pixel went off. -/
def draw (s : Screen) (x y : Nat) (sprite : List UInt8) : Screen × Bool :=
  s.drawRows (x % s.width.toNat) (y % s.height.toNat) false sprite

/-! ## What drawing keeps -/

@[simp] theorem width_clear (s : Screen) : s.clear.width = s.width := rfl

@[simp] theorem height_clear (s : Screen) : s.clear.height = s.height := rfl

@[simp] theorem size_clear (s : Screen) : s.clear.bytes.size = s.bytes.size := by simp [clear]

@[simp] theorem width_xorByte (s : Screen) (k : Nat) (bits : UInt8) :
    (s.xorByte k bits).1.width = s.width := rfl

@[simp] theorem height_xorByte (s : Screen) (k : Nat) (bits : UInt8) :
    (s.xorByte k bits).1.height = s.height := rfl

@[simp] theorem size_xorByte (s : Screen) (k : Nat) (bits : UInt8) :
    (s.xorByte k bits).1.bytes.size = s.bytes.size := by simp [xorByte]

@[simp] theorem width_drawRow (s : Screen) (x y : Nat) (row : UInt8) :
    (s.drawRow x y row).1.width = s.width := by
  simp only [drawRow]; split <;> simp

@[simp] theorem height_drawRow (s : Screen) (x y : Nat) (row : UInt8) :
    (s.drawRow x y row).1.height = s.height := by
  simp only [drawRow]; split <;> simp

@[simp] theorem size_drawRow (s : Screen) (x y : Nat) (row : UInt8) :
    (s.drawRow x y row).1.bytes.size = s.bytes.size := by
  simp only [drawRow]; split <;> simp

@[simp] theorem width_drawRows (s : Screen) (x y : Nat) (hit : Bool) (rows : List UInt8) :
    (s.drawRows x y hit rows).1.width = s.width := by
  induction rows generalizing s y hit with
  | nil => rfl
  | cons row rows ih => rw [drawRows, ih, width_drawRow]

@[simp] theorem height_drawRows (s : Screen) (x y : Nat) (hit : Bool) (rows : List UInt8) :
    (s.drawRows x y hit rows).1.height = s.height := by
  induction rows generalizing s y hit with
  | nil => rfl
  | cons row rows ih => rw [drawRows, ih, height_drawRow]

@[simp] theorem size_drawRows (s : Screen) (x y : Nat) (hit : Bool) (rows : List UInt8) :
    (s.drawRows x y hit rows).1.bytes.size = s.bytes.size := by
  induction rows generalizing s y hit with
  | nil => rfl
  | cons row rows ih => rw [drawRows, ih, size_drawRow]

@[simp] theorem width_draw (s : Screen) (x y : Nat) (sprite : List UInt8) :
    (s.draw x y sprite).1.width = s.width := width_drawRows ..

@[simp] theorem height_draw (s : Screen) (x y : Nat) (sprite : List UInt8) :
    (s.draw x y sprite).1.height = s.height := height_drawRows ..

@[simp] theorem size_draw (s : Screen) (x y : Nat) (sprite : List UInt8) :
    (s.draw x y sprite).1.bytes.size = s.bytes.size := size_drawRows ..

end Screen

end Chip8
