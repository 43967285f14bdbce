import Chip8.Proofs.Printable
import Chip8.Proofs.Records
import Mathlib.Algebra.Ring.Nat

/-!
# Reading a listing

The columns of a listing begin at the same places in all of its lines, the header included : each
begins two characters behind the widest text of the column before it (`Listing.Column.start`). What
a line has there, up to the blanks that fill the column, is the cell of that column
(`Listing.Shown.field_line`), because no cell is wider than its column or ends in a blank.

So a listing can be read. `Listing.read?` takes the place of the opcodes from the header and their
bytes from the lines, and it finds the program (`Listing.shows_program`), so that two programs with
the same listing are the same.
-/

namespace Chip8

/-! ## Lines -/

namespace Text

/-- The lines of a text, each without the line break that ends it. -/
def lines : List Char → List (List Char)
  | [] => []
  | c :: cs =>
    if c = '\n' then [] :: lines cs
    else
      match lines cs with
      | [] => [[c]]
      | line :: rest => (c :: line) :: rest

theorem lines_append {line : List Char} (h : '\n' ∉ line) (rest : List Char) :
    lines (line ++ '\n' :: rest) = line :: lines rest := by
  induction line with
  | nil => exact if_pos rfl
  | cons c line ih =>
    obtain ⟨hc, hline⟩ := not_or.1 (mt List.mem_cons.2 h)
    rw [List.cons_append, lines, if_neg (Ne.symm hc), ih hline]

theorem lines_flatMap {ls : List (List Char)} (h : ∀ line ∈ ls, '\n' ∉ line) :
    lines (ls.flatMap (· ++ ['\n'])) = ls := by
  induction ls with
  | nil => rfl
  | cons line ls ih =>
    obtain ⟨hline, hls⟩ := List.forall_mem_cons.1 h
    rw [List.flatMap_cons, List.append_assoc, List.singleton_append, lines_append hline, ih hls]

end Text

namespace Listing

/-! ## Columns -/

/-- Where a column begins in lines whose columns have these widths. -/
def Column.start (width : Column → Nat) (c : Column) : Nat :=
  ((Column.padded.takeWhile (· ≠ c)).map fun before => width before + gap.length).sum

/-- What a line shows in a column, without the blanks that fill it up. -/
def field (width : Column → Nat) (c : Column) (line : List Char) : List Char :=
  Text.trimEnd ((line.drop (c.start width)).take (width c))

/-- Cells that a line shows in full : none of them is wider than its column or ends in a blank, and
the last one is not empty. -/
structure Shown (width : Column → Nat) (cell : Column → List Char) : Prop where
  fits : ∀ c, (cell c).length ≤ width c
  tidy : ∀ c, Text.Tidy (cell c) ∨ cell c = []
  last : Text.Tidy (cell .description)

/-- A padded cell and what separates it from the next one. -/
def block (width : Column → Nat) (cell : Column → List Char) (c : Column) : List Char :=
  (cell c).rightpad (width c) ' ' ++ gap

section Fields

variable {width : Column → Nat} {cell : Column → List Char}

theorem Shown.printable (h : Shown width cell) (c : Column) : Text.Printable (cell c) :=
  (h.tidy c).elim Text.Tidy.printable fun hempty => by rw [hempty]; rfl

theorem Shown.trimEnd (h : Shown width cell) (c : Column) : Text.trimEnd (cell c) = cell c :=
  (h.tidy c).elim Text.trimEnd_of_tidy fun hempty => by rw [hempty]; rfl

theorem Shown.length_rightpad (h : Shown width cell) (c : Column) :
    ((cell c).rightpad (width c) ' ').length = width c := by
  rw [List.length_rightpad, Nat.max_eq_left (h.fits c)]

theorem Shown.length_block (h : Shown width cell) (c : Column) :
    (block width cell c).length = width c + gap.length := by
  rw [block, List.length_append, h.length_rightpad]

theorem Shown.tidy_blocks (h : Shown width cell) (cs : List Column) :
    Text.Tidy (cs.flatMap (block width cell) ++ cell .description) := by
  induction cs with
  | nil => exact h.last
  | cons c cs ih =>
    have hgap : Text.Printable gap := rfl
    have hpad : Text.Printable ((cell c).rightpad (width c) ' ') :=
      (h.printable c).append (Text.printable_replicate _)
    rw [List.flatMap_cons, List.append_assoc]
    exact (hpad.append hgap).append_tidy ih

/-- A line ends with the last character of its description, so that nothing of it is dropped. -/
theorem Shown.line_eq (h : Shown width cell) :
    line width (fun _ => none) cell =
      Column.padded.flatMap (block width cell) ++ cell .description :=
  Text.trimEnd_of_tidy (h.tidy_blocks Column.padded)

theorem Shown.newline_not_mem (h : Shown width cell) :
    '\n' ∉ line width (fun _ => none) cell := by
  rw [h.line_eq]
  exact (h.tidy_blocks Column.padded).printable.not_mem rfl

theorem Shown.drop_start (h : Shown width cell) (c : Column) (rest : List Char) :
    (Column.padded.flatMap (block width cell) ++ rest).drop (c.start width) =
      (Column.padded.dropWhile (· ≠ c)).flatMap (block width cell) ++ rest := by
  have hlength : ((Column.padded.takeWhile (· ≠ c)).flatMap (block width cell)).length =
      c.start width := by
    rw [List.length_flatMap, Column.start]
    exact congrArg List.sum (List.map_congr_left fun before _ => h.length_block before)
  calc (Column.padded.flatMap (block width cell) ++ rest).drop (c.start width)
      = ((Column.padded.takeWhile (· ≠ c) ++ Column.padded.dropWhile (· ≠ c)).flatMap
            (block width cell) ++ rest).drop (c.start width) := by
        rw [List.takeWhile_append_dropWhile]
    _ = (Column.padded.dropWhile (· ≠ c)).flatMap (block width cell) ++ rest := by
        rw [List.flatMap_append, List.append_assoc, List.drop_left' hlength]

theorem dropWhile_padded {c : Column} (h : c ≠ .description) :
    ∃ after, Column.padded.dropWhile (· ≠ c) = c :: after := by
  cases c
  case description => exact absurd rfl h
  all_goals exact ⟨_, rfl⟩

/-- In every column, a line shows the cell. -/
theorem Shown.field_line (h : Shown width cell) (c : Column) :
    field width c (line width (fun _ => none) cell) = cell c := by
  have htrim := h.trimEnd c
  rw [field, h.line_eq, h.drop_start]
  by_cases hc : c = .description
  · rw [hc] at htrim ⊢
    exact (congrArg Text.trimEnd (List.take_of_length_le (h.fits .description))).trans htrim
  · obtain ⟨after, hafter⟩ := dropWhile_padded hc
    rw [hafter, List.flatMap_cons, List.append_assoc, block, List.append_assoc,
      List.take_left' (h.length_rightpad c), List.rightpad, Text.trimEnd_append_replicate, htrim]

end Fields

/-! ## Widths -/

theorem le_foldl_max {α : Type} (f : α → Nat) (rs : List α) (w : Nat) :
    w ≤ rs.foldl (fun w r => max w (f r)) w ∧
      ∀ r ∈ rs, f r ≤ rs.foldl (fun w r => max w (f r)) w := by
  induction rs generalizing w with
  | nil => exact ⟨Nat.le_refl w, nofun⟩
  | cons r rs ih =>
    obtain ⟨hstart, hall⟩ := ih (max w (f r))
    refine ⟨Nat.le_trans (Nat.le_max_left _ _) hstart, List.forall_mem_cons.2 ⟨?_, hall⟩⟩
    exact Nat.le_trans (Nat.le_max_right _ _) hstart

theorem shown_title (rs : List Row) : Shown (width rs) Column.title where
  fits _ := (le_foldl_max _ rs _).1
  tidy c := .inl c.tidy_title
  last := Column.tidy_title .description

theorem shown_cell {rs : List Row} {r : Row} (h : r ∈ rs) : Shown (width rs) r.cell where
  fits c := (le_foldl_max (fun r : Row => (r.cell c).length) rs _).2 r h
  tidy c := (r.tidy_cell c).imp_right And.right
  last := (r.tidy_cell .description).resolve_right nofun

/-- No opcode is wider than the title above it. -/
theorem width_opcode (rs : List Row) : width rs .opcode = Column.opcode.title.length := by
  have hsix : Column.opcode.title.length = 6 := by decide
  unfold width
  induction rs with
  | nil => rfl
  | cons r rs ih =>
    have hcell : (r.cell .opcode).length ≤ 4 := r.record.length_opcodeText_le
    rw [List.foldl_cons, hsix, Nat.max_eq_left (by omega), ← hsix]
    exact ih

/-! ## Rows -/

theorem getElem?_rowsFrom (address : Nat) (rs : List Record) (k : Nat) :
    (rowsFrom [] address rs)[k]? =
      rs[k]?.map fun r => ⟨address + ((rs.take k).flatMap Record.bytes).length, r⟩ := by
  induction rs generalizing address k with
  | nil => rfl
  | cons r rs ih =>
    rw [rowsFrom, rowsFrom_eq]
    cases k with
    | zero => rfl
    | succ k =>
      rw [List.reverse_singleton, List.singleton_append, List.getElem?_cons_succ, ih,
        List.getElem?_cons_succ, List.take_succ_cons, List.flatMap_cons, List.length_append,
        Nat.add_assoc]
      rfl

/-- A row is a record at the address behind the records before it. -/
theorem getElem?_rows (rs : List Record) (k : Nat) :
    (rows rs)[k]? =
      rs[k]?.map fun r => ⟨programStart + ((rs.take k).flatMap Record.bytes).length, r⟩ :=
  getElem?_rowsFrom programStart rs k

theorem map_record_rows (rs : List Record) : (rows rs).map Row.record = rs := by
  refine List.ext_getElem? fun k => ?_
  rw [List.getElem?_map, getElem?_rows, Option.map_map]
  exact Option.map_id'

/-- The opcodes of all rows, behind each other, are the digits of all bytes. -/
theorem flatMap_opcode_rows (rs : List Record) :
    (rows rs).flatMap (fun r => r.cell .opcode) =
      (rs.flatMap Record.bytes).flatMap fun b => Numeral.padded 16 2 b.toNat := by
  calc (rows rs).flatMap (fun r => r.record.opcodeText.toList)
      = ((rows rs).map Row.record).flatMap fun r => r.opcodeText.toList := by
        rw [List.flatMap_map]
    _ = rs.flatMap fun r => r.bytes.flatMap fun b => Numeral.padded 16 2 b.toNat := by
        rw [map_record_rows]
        exact List.flatMap_congr fun r _ => r.toList_opcodeText
    _ = _ := List.flatMap_assoc.symm

/-! ## Reading -/

theorem lines_eq (color : Bool) (rs : List Row) :
    lines color rs = line (width rs) (titleStyle color) Column.title ::
      rs.map fun r => line (width rs) (rowStyle color r) r.cell := by
  have hwidths : (widths rs).of = width rs := funext (of_widths rs)
  rw [lines, hwidths]

theorem lines_plain (rs : List Row) :
    lines false rs = line (width rs) (fun _ => none) Column.title ::
      rs.map fun r => line (width rs) (fun _ => none) r.cell :=
  lines_eq false rs

/-- The lines of a listing without colours. -/
theorem lines_listing (rs : List Record) :
    Text.lines (listing false rs).toList = lines false (rows rs) := by
  rw [listing, String.toList_ofList]
  refine Text.lines_flatMap ?_
  rw [lines_plain, List.forall_mem_cons]
  refine ⟨(shown_title _).newline_not_mem, fun line hline => ?_⟩
  obtain ⟨r, hr, rfl⟩ := List.mem_map.1 hline
  exact (shown_cell hr).newline_not_mem

/-- The program that a listing shows. The opcodes stand below their title, which begins with the
first letter `o` of the header. -/
def read? (text : List Char) : Option (List UInt8) :=
  match Text.lines text with
  | [] => none
  | header :: body =>
    let start := (header.takeWhile (· ≠ 'o')).length
    Numeral.hexBytes? (body.flatMap fun line =>
      Text.trimEnd ((line.drop start).take Column.opcode.title.length))

theorem length_takeWhile_header (rs : List Row) :
    ((line (width rs) (fun _ => none) Column.title).takeWhile (· ≠ 'o')).length =
      Column.opcode.start (width rs) := by
  have hshown := shown_title rs
  have htitle : Column.opcode.title = 'o' :: ['p', 'c', 'o', 'd', 'e'] := String.toList_ofList
  obtain ⟨after, hopcode⟩ : ∃ after, block (width rs) Column.title .opcode = 'o' :: after := by
    rw [block, List.rightpad, htitle]
    exact ⟨_, rfl⟩
  obtain ⟨rest, hrest⟩ : ∃ rest, line (width rs) (fun _ => none) Column.title =
      block (width rs) Column.title .address ++ 'o' :: rest := by
    rw [hshown.line_eq, Column.padded, List.flatMap_cons, List.flatMap_cons, hopcode,
      List.append_assoc]
    exact ⟨_, rfl⟩
  have haddress : Column.address.title.all (· ≠ 'o') = true := by decide
  have hblanks : (List.replicate (width rs .address - Column.address.title.length) ' ').all
      (· ≠ 'o') = true :=
    List.all_eq_true.2 fun c hc => by rw [List.eq_of_mem_replicate hc]; decide
  have hgap : gap.all (· ≠ 'o') = true := by decide
  have hbefore : (block (width rs) Column.title .address).all (· ≠ 'o') = true := by
    rw [block, List.rightpad, List.all_append, List.all_append, haddress, hblanks, hgap]
    rfl
  rw [hrest, List.takeWhile_append_of_pos (List.all_eq_true.1 hbefore),
    List.takeWhile_cons_of_neg (by decide), List.append_nil, hshown.length_block]
  rfl

theorem hexBytes?_body (rs : List Record) :
    let width := width (rows rs)
    let body := (rows rs).map fun r => line width (fun _ => none) r.cell
    Numeral.hexBytes? (body.flatMap (field width .opcode)) = some (rs.flatMap Record.bytes) := by
  intro width body
  rw [List.flatMap_map, List.flatMap_congr fun r hr => (shown_cell hr).field_line .opcode,
    flatMap_opcode_rows, Numeral.hexBytes?_flatMap]

theorem read?_listing (rs : List Record) :
    read? (listing false rs).toList = some (rs.flatMap Record.bytes) := by
  rw [read?, lines_listing, lines_plain]
  simp only [length_takeWhile_header]
  rw [← width_opcode (rows rs)]
  exact hexBytes?_body rs

/-! ## The listing of a program -/

/-- What the records of a program and its listing say of the program. Cutting it never fails and
loses no byte, and words alone make up the programs of even length.

The listing has the same columns in all of its lines. Line `k` behind the header shows record `k`
and the address of its first byte, and the opcodes down the lines are the bytes of the program, so
that no other program has this listing. -/
theorem shows_program (program : List UInt8) :
    recordsByWords program = .ok (records program) ∧
    (records program).flatMap Record.bytes = program ∧
    (records program).map Record.size =
      List.replicate (program.length / 2) 2 ++ List.replicate (program.length % 2) 1 ∧
    (∀ words, disassemble program = .ok words ↔
      program.length % 2 = 0 ∧ words = records program) ∧
    let text := (listing false (records program)).toList
    (∃ width header body, Text.lines text = header :: body ∧
      body.length = (program.length + 1) / 2 ∧ (∀ c, field width c header = c.title) ∧
      (∀ k line, body[k]? = some line → ∃ r, (records program)[k]? = some r ∧
        let before := ((records program).take k).flatMap Record.bytes
        let address := programStart + before.length
        Numeral.Spells 16 4 address (field width .address line) ∧
          ∀ c, field width c line = Row.cell ⟨address, r⟩ c) ∧
      Numeral.hexBytes? (body.flatMap (field width .opcode)) = some program) ∧
    read? text = some program ∧
    ∀ other, listing false (records other) = listing false (records program) →
      other = program := by
  have hbytes := flatMap_bytes_records program
  have hread : ∀ p, read? (listing false (records p)).toList = some p := fun p => by
    rw [read?_listing, flatMap_bytes_records]
  refine ⟨recordsByWords_eq program, hbytes, map_size_records program,
    fun words => disassemble_eq_ok_iff, ?_, hread program, fun other hother => ?_⟩
  · let rs := records program
    refine ⟨width (rows rs), _, _, (lines_listing rs).trans (lines_plain _), ?_,
      (shown_title _).field_line, fun k line hline => ?_, ?_⟩
    · rw [List.length_map, ← List.length_map Row.record, map_record_rows, length_records]
    · rw [List.getElem?_map] at hline
      obtain ⟨row, hrow, rfl⟩ := Option.map_eq_some_iff.1 hline
      have hshown := shown_cell (List.mem_of_getElem? hrow)
      rw [getElem?_rows] at hrow
      obtain ⟨r, hr, rfl⟩ := Option.map_eq_some_iff.1 hrow
      refine ⟨r, hr, ?_, hshown.field_line⟩
      rw [hshown.field_line]
      exact Numeral.spells_padded (by decide) (by decide)
    · rw [hexBytes?_body, hbytes]
  · have hsame := hread other
    rw [hother] at hsame
    exact Option.some.inj (hsame.symm.trans (hread program))

/-- The last byte of a program that is loaded up to the address `0x10000`. -/
theorem shows_program_last : ∃ (program : List UInt8) (width : Column → Nat)
    (header : List Char) (body : List (List Char)) (line : List Char),
    program = List.replicate 0xFE01 0x20 ∧
    Text.lines (listing false (records program)).toList = header :: body ∧
    body.length = 0x7F01 ∧ body[0x7F00]? = some line ∧
    Numeral.Spells 16 4 0x10000 (field width .address line) := by
  obtain ⟨program, hprogram⟩ : ∃ program : List UInt8, program = List.replicate 0xFE01 0x20 :=
    ⟨_, rfl⟩
  have hlength : program.length = 0xFE01 := by rw [hprogram, List.length_replicate]
  obtain ⟨-, -, -, -, ⟨width, header, body, hlines, hbody, -, hshown, -⟩, -, -⟩ :=
    shows_program program
  rw [hlength] at hbody
  have hlast : body[0x7F00]? = some body[0x7F00] := List.getElem?_eq_getElem _
  have hbefore : (((records program).take 0x7F00).flatMap Record.bytes).length = 2 * 0x7F00 :=
    length_bytes_take_records (by omega)
  obtain ⟨r, -, haddress, -⟩ := hshown _ _ hlast
  rw [hbefore] at haddress
  exact ⟨program, width, header, body, _, hprogram, hlines, hbody, hlast, haddress⟩

end Listing

end Chip8
