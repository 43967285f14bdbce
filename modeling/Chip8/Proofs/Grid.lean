import Chip8.Terminal.Platform
import Mathlib.Data.List.Basic

/-!
# What a terminal shows

A terminal shows a grid of characters, without end to the right and downwards, and has a cursor.
`Grid.apply` says what a command does to them : a movement sets the cursor, a character that is
printed goes to the cursor and moves it on, and clearing a line blanks it from the cursor on.

Commands are looked at cell by cell. `Grid.Leaves` says that they leave an area of the grid
alone, and `Grid.cell_written` what text shows that is printed after a movement.
-/

namespace Chip8

namespace Terminal

/-- The characters that a terminal shows, and its cursor. -/
structure Grid where
  /-- The character in a column of a row. -/
  cell : Nat → Nat → Char
  /-- The column of the cursor. -/
  column : Nat
  /-- The row of the cursor. -/
  row : Nat

namespace Grid

/-- A grid that shows nothing. -/
def blank : Grid := ⟨fun _ _ => ' ', 0, 0⟩

/-- A character at the cursor, which moves on. -/
def put (g : Grid) (c : Char) : Grid :=
  { g with
    cell := fun x y => if x = g.column ∧ y = g.row then c else g.cell x y
    column := g.column + 1 }

/-- The grid after a command. The modes of the terminal do not show. -/
def apply (g : Grid) : Command → Grid
  | .moveTo column row => { g with column := column.toNat, row := row.toNat }
  | .print text => text.toList.foldl put g
  | .clearLine =>
    { g with cell := fun x y => if g.column ≤ x ∧ y = g.row then ' ' else g.cell x y }
  | .clearAll => { g with cell := fun _ _ => ' ' }
  | .showCursor | .hideCursor | .enterAlternate | .leaveAlternate | .resetStyle => g

/-- The grid after commands. -/
def applyAll (g : Grid) (commands : List Command) : Grid := commands.foldl apply g

@[simp] theorem applyAll_nil (g : Grid) : g.applyAll [] = g := rfl

@[simp] theorem applyAll_cons (g : Grid) (command : Command) (commands : List Command) :
    g.applyAll (command :: commands) = (g.apply command).applyAll commands := rfl

theorem applyAll_append (g : Grid) (as bs : List Command) :
    g.applyAll (as ++ bs) = (g.applyAll as).applyAll bs :=
  List.foldl_append

/-! ## Text -/

theorem cell_put (g : Grid) (c : Char) (x y : Nat) :
    (g.put c).cell x y = if x = g.column ∧ y = g.row then c else g.cell x y := rfl

@[simp] theorem column_put (g : Grid) (c : Char) : (g.put c).column = g.column + 1 := rfl

@[simp] theorem row_put (g : Grid) (c : Char) : (g.put c).row = g.row := rfl

/-- Characters go to the row of the cursor, from its column on. -/
theorem cell_foldl_put (g : Grid) (cs : List Char) (x y : Nat) :
    (cs.foldl put g).cell x y =
      if g.column ≤ x ∧ y = g.row then cs.getD (x - g.column) (g.cell x y) else g.cell x y := by
  induction cs generalizing g with
  | nil =>
    rw [List.getD_nil, ite_self]
    rfl
  | cons c cs ih =>
    rw [List.foldl_cons, ih, column_put, row_put, cell_put]
    rcases Nat.lt_trichotomy x g.column with hx | rfl | hx
    · rw [if_neg (by omega), if_neg (by omega), if_neg (by omega)]
    · rw [if_neg (by omega), Nat.sub_self, List.getD_cons_zero]
      simp only [true_and, Nat.le_refl]
    · have hrest : x - g.column = x - (g.column + 1) + 1 := by omega
      have hnot : ¬(x = g.column ∧ y = g.row) := by omega
      have hiff : g.column + 1 ≤ x ∧ y = g.row ↔ g.column ≤ x ∧ y = g.row := by omega
      simp only [hrest, List.getD_cons_succ, if_neg hnot, hiff]

/-- Text that is printed after a movement stands there, and nothing else changes. -/
theorem cell_written (g : Grid) (column row : UInt16) (text : String) (x y : Nat) :
    (g.applyAll [.moveTo column row, .print text]).cell x y =
      if column.toNat ≤ x ∧ y = row.toNat then text.toList.getD (x - column.toNat) (g.cell x y)
      else g.cell x y :=
  cell_foldl_put _ _ x y

/-! ## Areas that are left alone -/

/-- The commands leave the cells of an area alone, whatever the terminal shows before them. -/
def Leaves (area : Nat → Nat → Prop) (commands : List Command) : Prop :=
  ∀ (g : Grid) (x y : Nat), area x y → (g.applyAll commands).cell x y = g.cell x y

namespace Leaves

variable {area area' : Nat → Nat → Prop} {as bs : List Command}

theorem mono (h : Leaves area as) (harea : ∀ x y, area' x y → area x y) : Leaves area' as :=
  fun g x y hxy => h g x y (harea x y hxy)

theorem nil : Leaves area [] := fun _ _ _ _ => rfl

theorem append (ha : Leaves area as) (hb : Leaves area bs) : Leaves area (as ++ bs) := by
  intro g x y hxy
  rw [applyAll_append, hb _ x y hxy, ha g x y hxy]

theorem flatMap {α : Type} {items : List α} {f : α → List Command}
    (h : ∀ a ∈ items, Leaves area (f a)) : Leaves area (items.flatMap f) := by
  induction items with
  | nil => exact nil
  | cons a items ih =>
    rw [List.flatMap_cons]
    exact (h a List.mem_cons_self).append (ih fun b hb => h b (List.mem_cons_of_mem a hb))

/-- Of commands that come in pieces, the last piece that does not leave a cell alone decides what
it shows. -/
theorem cell_flatMap_range {pieces : Nat → List Command} {k n : Nat} (hk : k < n)
    (h : ∀ j, k < j → j < n → Leaves area (pieces j)) (g : Grid) {x y : Nat} (hxy : area x y) :
    (g.applyAll ((List.range n).flatMap pieces)).cell x y =
      ((g.applyAll ((List.range k).flatMap pieces)).applyAll (pieces k)).cell x y := by
  obtain ⟨rest, rfl⟩ : ∃ rest, n = k + 1 + rest := Nat.exists_eq_add_of_le hk
  have hrest : Leaves area (((List.range rest).map (k + 1 + ·)).flatMap pieces) := by
    refine flatMap fun j hj => ?_
    obtain ⟨i, hi, rfl⟩ := List.mem_map.1 hj
    have := List.mem_range.1 hi
    exact h _ (by omega) (by omega)
  rw [List.range_add, List.flatMap_append, applyAll_append, hrest _ x y hxy, List.range_succ,
    List.flatMap_append, List.flatMap_singleton, applyAll_append]

/-- Text leaves alone what lies outside the columns that it takes. -/
theorem written {column row : UInt16} {text : String}
    (h : ∀ x y, area x y → y ≠ row.toNat ∨ x < column.toNat ∨ column.toNat + text.length ≤ x) :
    Leaves area [.moveTo column row, .print text] := by
  intro g x y hxy
  rw [cell_written]
  split_ifs with hin
  · have hend : text.toList.length ≤ x - column.toNat := by
      have hout := h x y hxy
      rw [String.length_toList]
      omega
    rw [List.getD_eq_getElem?_getD, List.getElem?_eq_none hend, Option.getD_none]
  · rfl

/-- A line that is cleared before text is printed leaves alone all other rows, and what stands
before it in its own. -/
theorem cleared {column row : UInt16} {text : String}
    (h : ∀ x y, area x y → y ≠ row.toNat ∨ x < column.toNat) :
    Leaves area [.moveTo column row, .clearLine, .print text] := by
  intro g x y hxy
  have hout : ¬(column.toNat ≤ x ∧ y = row.toNat) := by
    have := h x y hxy
    omega
  refine (cell_foldl_put _ _ x y).trans ?_
  exact (if_neg hout).trans (if_neg hout)

end Leaves

end Grid

end Terminal

end Chip8
