import Chip8.Proofs.Grid
import Chip8.Proofs.WellFormed

/-!
# What the panels show

The pixels have an area of the terminal to themselves (`screenArea`) : the system calls end
before its first column, the addresses of the call stack too, and the status lines end above its
first row (`leaves_syscallPanel`, `leaves_statusPanel`).

In that area the terminal shows the screen that was drawn last. `screenPanel` looks for bytes
that changed; said pixel by pixel, it prints those that differ from the screen before, in reading
order (`screenPanel_eq`). So the new screen is shown if the last one was (`shows_screenPanel`).
-/

namespace Chip8

/-- The screen with other bytes. -/
def Screen.withBytes (s : Screen) (bytes : Array UInt8) : Screen := { s with bytes := bytes }

/-- The pixels of a screen in reading order, each as its column and its row. -/
def Screen.places (s : Screen) : List (Nat × Nat) :=
  (List.range s.height.toNat).flatMap fun y => (List.range s.width.toNat).map fun x => (x, y)

theorem Screen.WellFormed.withBytes {s : Screen} (hs : s.WellFormed) {bytes : Array UInt8}
    (h : bytes.size = s.bytes.size) : (s.withBytes bytes).WellFormed :=
  ⟨hs.aligned, hs.width_pos, hs.height_pos, h.trans hs.size⟩

theorem Screen.mem_places {s : Screen} {x y : Nat} :
    (x, y) ∈ s.places ↔ x < s.width.toNat ∧ y < s.height.toNat := by
  simp only [places, List.mem_flatMap, List.mem_map, List.mem_range, Prod.mk.injEq]
  grind

/-- Counting up to a product is counting row by row. -/
theorem flatMap_range_mul {α : Type} (f : Nat → List α) (n m : Nat) :
    (List.range (n * m)).flatMap f =
      (List.range n).flatMap fun i => (List.range m).flatMap fun j => f (i * m + j) := by
  induction n with
  | zero => simp
  | succ n ih =>
    rw [Nat.succ_mul, List.range_add, List.flatMap_append, ih, List.range_succ,
      List.flatMap_append, List.flatMap_singleton, List.flatMap_map]

namespace Terminal

/-! ## The area of the pixels -/

/-- The cells to the right of the left panels and below the status lines. -/
def screenArea (x y : Nat) : Prop := statusColumn.toNat ≤ x ∧ screenRow.toNat ≤ y

theorem length_name_le (call : Syscall) : call.name.length ≤ 8 := by cases call <;> decide

/-- The system calls take eight columns. -/
theorem leaves_syscallPanel (calls : List Syscall) :
    Grid.Leaves screenArea (syscallPanel calls) := by
  refine .flatMap fun row _ => .written fun x y hxy => .inr (.inr ?_)
  have hname : ((calls[row]?.map Syscall.name).getD "").length ≤ 8 := by
    cases calls[row]? with
    | none => exact Nat.zero_le _
    | some call => exact length_name_le call
  rw [String.length_ofList, List.length_rightpad, String.length_toList, Nat.max_eq_left hname]
  exact Nat.le_trans (by decide) hxy.1

theorem length_slotText (s : State) (slot : Nat) : (slotText s slot).length = 4 := by
  unfold slotText
  split
  · rename_i address _
    rw [State.wordText, Numeral.hex, String.length_ofList]
    exact Numeral.length_padded (by decide) (by decide) address.toNat_lt
  · rfl

theorem length_statusLines (s : State) : s.statusLines.length = 4 := rfl

/-- The commands for a slot of the call stack that has a row. -/
def slotCommands (s : State) (slot : Nat) : List Command :=
  [.moveTo stackColumn (UInt16.ofNat (slot + 1)), .print (slotText s slot)]

theorem stackRow_of_lt (s : State) {slot : Nat} (h : slot < 0xFFFF) :
    stackRow s slot = .ok (slotCommands s slot) := by
  have hslot : (UInt16.ofNat slot).toBitVec.toNat = slot := Nat.mod_eq_of_lt (by omega)
  have hone : (1 : BitVec 16).toNat = 1 := rfl
  have hfits : ¬(UInt16.ofNat slot).toBitVec.uaddOverflow 1 := by
    rw [BitVec.uaddOverflow, decide_eq_true_iff, hslot, hone]
    omega
  rw [stackRow, addWords, if_neg hfits, slotCommands, UInt16.ofNat_add]
  rfl

theorem stackRow_last (s : State) : stackRow s 0xFFFF = .error .sum := by
  rw [stackRow, addWords, if_pos (by decide)]
  rfl

/-- The status is drawn with the slots that have a row. If there are more slots, the drawing stops
behind them. -/
theorem statusPanel_eq (s : State) :
    statusPanel s =
      { commands := statusRows s ++
          (List.range (min s.stack.capacity 0xFFFF)).flatMap (slotCommands s)
        stop := if s.stack.capacity ≤ 0xFFFF then none else some .sum } := by
  have hrows {n : Nat} (hn : n ≤ 0xFFFF) : (List.range n).map (stackRow s) =
      (List.range n).map fun slot => .ok (slotCommands s slot) :=
    List.map_congr_left fun slot hslot =>
      stackRow_of_lt s (Nat.lt_of_lt_of_le (List.mem_range.1 hslot) hn)
  rw [statusPanel, Sent.ofPieces]
  split_ifs with hfits
  · have hsent := Sent.ofPieces_map_ok_append (slotCommands s) (List.range s.stack.capacity) []
    rw [List.append_nil] at hsent
    rw [hrows hfits, hsent, Nat.min_eq_left hfits]
    simp only [Sent.ofPieces, List.append_nil]
  · rw [Nat.not_le] at hfits
    obtain ⟨later, hlater⟩ : ∃ later,
        (List.range s.stack.capacity).map (stackRow s) =
          (List.range 0xFFFF).map (fun slot => .ok (slotCommands s slot)) ++
            .error .sum :: later := by
      obtain ⟨more, hmore⟩ := Nat.exists_eq_add_of_lt hfits
      refine ⟨(((List.range more).map Nat.succ).map (0xFFFF + ·)).map (stackRow s), ?_⟩
      rw [hmore, Nat.add_assoc, List.range_add, List.map_append, hrows (Nat.le_refl _),
        List.range_succ_eq_map (n := more), List.map_cons, List.map_cons, Nat.add_zero,
        stackRow_last]
    rw [hlater, Sent.ofPieces_map_ok_append, Nat.min_eq_right (Nat.le_of_lt hfits)]
    simp only [Sent.ofPieces, List.append_nil]

/-- The cells of the status lines and of the call stack. -/
def statusArea (x y : Nat) : Prop :=
  (statusColumn.toNat ≤ x ∧ y < 4) ∨ (x < 4 ∧ y < 0x10000)

/-- The status takes four rows, and the call stack four columns. -/
theorem leaves_outside_statusArea (s : State) :
    Grid.Leaves (fun x y => ¬statusArea x y) (statusPanel s).commands := by
  rw [statusPanel_eq]
  refine .append (.flatMap fun line hline => .cleared fun x y hxy => ?_)
    (.flatMap fun slot _ => .written fun x y hxy => ?_)
  · obtain ⟨text, row⟩ := line
    obtain ⟨hrow, -⟩ := List.mem_zipIdx' hline
    rw [length_statusLines] at hrow
    rw [UInt16.toNat_ofNat', Nat.mod_eq_of_lt (by omega)]
    unfold statusArea at hxy
    omega
  · have hlast := (UInt16.ofNat (slot + 1)).toNat_lt
    rw [length_slotText, show stackColumn.toNat = 0 from rfl]
    unfold statusArea at hxy
    omega

theorem leaves_statusPanel (s : State) : Grid.Leaves screenArea (statusPanel s).commands := by
  refine (leaves_outside_statusArea s).mono fun x y hxy => ?_
  have hcolumn : 20 ≤ x := hxy.1
  have hrow : 5 ≤ y := hxy.2
  unfold statusArea
  omega

/-! ## Pixels that changed -/

/-- The character of a pixel : a full block if it is on, a blank if not. -/
def pixelChar (on : Bool) : Char := if on then '█' else ' '

theorem toList_pixelText (on : Bool) : (pixelText on).toList = [pixelChar on] := by
  cases on <;> rfl

theorem pixelChar_inj {a b : Bool} : pixelChar a = pixelChar b ↔ a = b := by
  cases a <;> cases b <;> decide

/-- The commands for a pixel. -/
def pixelCommands (s : Screen) (p : Nat × Nat) : List Command :=
  [.moveTo (statusColumn + UInt16.ofNat p.1) (screenRow + UInt16.ofNat p.2),
   .print (pixelText (s.pixel p.1 p.2))]

/-- A pixel of a byte is drawn if its bit changed. -/
theorem pixelCells_eq (before now : UInt8) (x y : UInt16) (bit : Nat) :
    pixelCells before now x y bit =
      if column now bit = column before bit then []
      else [.moveTo (statusColumn + x + UInt16.ofNat bit) (screenRow + y),
        .print (pixelText (column now bit))] := by
  have hxor : (now ^^^ before).toNat.testBit (7 - bit) = (column now bit ^^ column before bit) :=
    column_xor now before bit
  have hnow : now.toNat.testBit (7 - bit) = column now bit := rfl
  rw [pixelCells, hxor, hnow]
  cases column now bit <;> cases column before bit <;> rfl

/-- No pixel of a byte that did not change is drawn, so that such a byte is no special case. -/
theorem byteCells_eq_flatMap (before : Array UInt8) (s : Screen) (k : Nat) :
    byteCells before s k = (List.range 8).flatMap
      (pixelCells (before.getD k 0) (s.byte k) (UInt16.ofNat (k % s.byteWidth * 8))
        (UInt16.ofNat (k / s.byteWidth))) := by
  rw [byteCells]
  split_ifs with hsame
  · refine (List.flatMap_eq_nil_iff.2 fun bit _ => ?_).symm
    rw [pixelCells_eq, hsame, if_pos rfl]
  · rfl

variable {s : Screen}

/-- The commands for a pixel, if it is not on in just one of two screens. -/
def changedCommands (before : Array UInt8) (s : Screen) (p : Nat × Nat) : List Command :=
  if s.pixel p.1 p.2 = (s.withBytes before).pixel p.1 p.2 then [] else pixelCommands s p

theorem byteCells_eq (hs : s.WellFormed) {before : Array UInt8}
    (hbefore : before.size = s.bytes.size) {y j : Nat} (hy : y < s.height.toNat)
    (hj : j < s.byteWidth) :
    byteCells before s (y * s.byteWidth + j) =
      (List.range 8).flatMap fun bit => changedCommands before s (j * 8 + bit, y) := by
  have hrow : (y * s.byteWidth + j) / s.byteWidth = y := by
    rw [Nat.mul_comm, Nat.mul_add_div hs.byteWidth_pos, Nat.div_eq_of_lt hj, Nat.add_zero]
  have hbyte : (y * s.byteWidth + j) % s.byteWidth = j := by
    rw [Nat.mul_comm, Nat.mul_add_mod, Nat.mod_eq_of_lt hj]
  rw [byteCells_eq_flatMap, hrow, hbyte]
  refine List.flatMap_congr fun bit hbit => ?_
  have hnow := Screen.pixel_byte hs hy hj (List.mem_range.1 hbit)
  have hold : (s.withBytes before).pixel (j * 8 + bit) y =
      column (before.getD (y * s.byteWidth + j) 0) bit :=
    Screen.pixel_byte (hs.withBytes hbefore) hy hj (List.mem_range.1 hbit)
  rw [pixelCells_eq, changedCommands, pixelCommands, hnow, hold, UInt16.ofNat_add,
    UInt16.add_assoc]

/-- Looking for bytes that changed comes to a command for each pixel that changed, in reading
order. -/
theorem screenPanel_eq (hs : s.WellFormed) {before : Array UInt8}
    (hbefore : before.size = s.bytes.size) :
    screenPanel before s = s.places.flatMap (changedCommands before s) := by
  rw [screenPanel, hs.size_eq, flatMap_range_mul, Screen.places, List.flatMap_assoc]
  refine List.flatMap_congr fun y hy => ?_
  rw [List.flatMap_map, hs.width_eq, Nat.mul_comm 8, flatMap_range_mul]
  exact List.flatMap_congr fun j hj =>
    byteCells_eq hs hbefore (List.mem_range.1 hy) (List.mem_range.1 hj)

/-! ## What drawing a screen shows -/

/-- The terminal shows the pixels of a screen, the first one in column 20 of row 5. -/
def Grid.Shows (g : Grid) (s : Screen) : Prop :=
  ∀ x < s.width.toNat, ∀ y < s.height.toNat,
    g.cell (statusColumn.toNat + x) (screenRow.toNat + y) = pixelChar (s.pixel x y)

theorem Grid.cell_pixelCommands (g : Grid) (s : Screen) {p : Nat × Nat} (hx : p.1 < 256)
    (hy : p.2 < 256) (x y : Nat) :
    (g.applyAll (pixelCommands s p)).cell (statusColumn.toNat + x) (screenRow.toNat + y) =
      if p = (x, y) then pixelChar (s.pixel x y)
      else g.cell (statusColumn.toNat + x) (screenRow.toNat + y) := by
  have hcolumn : (statusColumn + UInt16.ofNat p.1).toNat = statusColumn.toNat + p.1 := by
    rw [UInt16.toNat_add, UInt16.toNat_ofNat', show statusColumn.toNat = 20 from rfl]
    omega
  have hrow : (screenRow + UInt16.ofNat p.2).toNat = screenRow.toNat + p.2 := by
    rw [UInt16.toNat_add, UInt16.toNat_ofNat', show screenRow.toNat = 5 from rfl]
    omega
  rw [pixelCommands, cell_written, hcolumn, hrow, toList_pixelText]
  obtain ⟨px, py⟩ := p
  by_cases hp : px = x ∧ py = y
  · obtain ⟨rfl, rfl⟩ := hp
    rw [if_pos ⟨Nat.le_refl _, rfl⟩, if_pos rfl, Nat.sub_self, List.getD_cons_zero]
  · rw [if_neg fun heq => hp (Prod.mk.inj heq)]
    split_ifs with hin
    · have hright : [pixelChar (s.pixel px py)].length ≤ statusColumn.toNat + x -
          (statusColumn.toNat + px) := by
        simp only [List.length_singleton]
        omega
      rw [List.getD_eq_getElem?_getD, List.getElem?_eq_none hright, Option.getD_none]
    · rfl

/-- Drawing pixels that changed, whichever they are : these show the new screen, and the others
what they showed before. -/
theorem Grid.cell_changedCommands (before : Array UInt8) (s : Screen) {places : List (Nat × Nat)}
    (hplaces : ∀ p ∈ places, p.1 < 256 ∧ p.2 < 256) (g : Grid) (x y : Nat) :
    (g.applyAll (places.flatMap (changedCommands before s))).cell (statusColumn.toNat + x)
        (screenRow.toNat + y) =
      if (x, y) ∈ places ∧ s.pixel x y ≠ (s.withBytes before).pixel x y then
        pixelChar (s.pixel x y)
      else g.cell (statusColumn.toNat + x) (screenRow.toNat + y) := by
  induction places generalizing g with
  | nil => exact (if_neg fun h => List.not_mem_nil h.1).symm
  | cons p places ih =>
    obtain ⟨hx, hy⟩ := hplaces p List.mem_cons_self
    rw [List.flatMap_cons, applyAll_append, ih fun q hq => hplaces q (List.mem_cons_of_mem p hq),
      changedCommands]
    by_cases hp : p = (x, y)
    · subst hp
      by_cases hsame : s.pixel x y = (s.withBytes before).pixel x y
      · simp [hsame]
      · simp [hsame, cell_pixelCommands _ _ hx hy]
    · have hne : (x, y) ≠ p := fun h => hp h.symm
      have hkeep : (g.applyAll (if s.pixel p.1 p.2 = (s.withBytes before).pixel p.1 p.2 then []
          else pixelCommands s p)).cell (statusColumn.toNat + x) (screenRow.toNat + y) =
            g.cell (statusColumn.toNat + x) (screenRow.toNat + y) := by
        split_ifs
        · rfl
        · rw [cell_pixelCommands _ _ hx hy, if_neg hp]
      rw [hkeep]
      simp only [List.mem_cons, hne, false_or]

/-- If the terminal shows a screen, it shows the next one once the pixels that changed are
drawn. -/
theorem Grid.shows_screenPanel (hs : s.WellFormed) {before : Array UInt8}
    (hbefore : before.size = s.bytes.size) {g : Grid} (hg : g.Shows (s.withBytes before)) :
    (g.applyAll (screenPanel before s)).Shows s := by
  intro x hx y hy
  have hplaces : ∀ p ∈ s.places, p.1 < 256 ∧ p.2 < 256 := by
    intro p hp
    obtain ⟨hpx, hpy⟩ := Screen.mem_places.1 hp
    exact ⟨Nat.lt_trans hpx s.width.toNat_lt, Nat.lt_trans hpy s.height.toNat_lt⟩
  rw [screenPanel_eq hs hbefore, cell_changedCommands before s hplaces]
  split_ifs with hchanged
  · rfl
  · have hsame : s.pixel x y = (s.withBytes before).pixel x y := by
      by_contra hne
      exact hchanged ⟨Screen.mem_places.2 ⟨hx, hy⟩, hne⟩
    rw [hg x hx y hy, hsame]

end Terminal

end Chip8
