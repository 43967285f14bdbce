import Chip8.Listing
import Chip8.Proofs.Numeral
import Mathlib.Data.List.Basic

/-!
# The texts of a listing

A listing is made of printable ASCII characters : no text that an operation, a record or a row has
breaks a line or starts an escape sequence. A text is tidy if, besides, its last character is no
blank; so are all the cells of a row, but the empty one of a record whose bytes are not all
printable (`Listing.Row.tidy_cell`). Blanks at the end of a line never belong to a cell, then.
-/

namespace Chip8

namespace Text

/-- Whether a character is printable ASCII. -/
def isPrintable (c : Char) : Bool := 32 ≤ c.toNat && c.toNat ≤ 126

/-- A text of printable characters. -/
def Printable (cs : List Char) : Prop := cs.all isPrintable = true

/-- A text of printable characters, the last of which is no blank. -/
structure Tidy (cs : List Char) : Prop where
  printable : Printable cs
  last : cs.getLast?.any (fun c => !isBlank c) = true

variable {cs ds : List Char}

/-! ## Putting texts together -/

theorem Printable.append (hc : Printable cs) (hd : Printable ds) : Printable (cs ++ ds) := by
  rw [Printable, List.all_append, hc, hd]
  rfl

theorem Printable.not_mem (h : Printable cs) {c : Char} (hc : isPrintable c = false) : c ∉ cs := by
  intro hmem
  have hprintable := List.all_eq_true.1 h c hmem
  rw [hc] at hprintable
  cases hprintable

theorem printable_replicate (count : Nat) : Printable (List.replicate count ' ') := by
  refine List.all_eq_true.2 fun c hc => ?_
  rw [List.eq_of_mem_replicate hc]
  rfl

theorem Tidy.ne_nil (h : Tidy cs) : cs ≠ [] := by
  rintro rfl
  exact Bool.false_ne_true h.last

theorem Printable.append_tidy (hc : Printable cs) (hd : Tidy ds) : Tidy (cs ++ ds) where
  printable := hc.append hd.printable
  last := by
    rw [List.getLast?_append_of_ne_nil _ hd.ne_nil]
    exact hd.last

/-- A text that does not end in a blank has none to lose there. -/
theorem trimEnd_of_last (h : cs.getLast?.any (fun c => !isBlank c) = true) : trimEnd cs = cs := by
  have hne : cs ≠ [] := by
    rintro rfl
    exact Bool.false_ne_true h
  obtain ⟨front, c, rfl⟩ : ∃ front c, cs = front ++ [c] :=
    ⟨_, _, (List.dropLast_append_getLast hne).symm⟩
  have hlast : isBlank c = false := by simpa using h
  rw [trimEnd, List.reverse_append, List.reverse_singleton, List.singleton_append,
    List.dropWhile_cons_of_neg (by rw [hlast]; exact Bool.false_ne_true), List.reverse_cons,
    List.reverse_reverse]

theorem trimEnd_of_tidy (h : Tidy cs) : trimEnd cs = cs := trimEnd_of_last h.last

theorem trimEnd_append_replicate (cs : List Char) (count : Nat) :
    trimEnd (cs ++ List.replicate count ' ') = trimEnd cs := by
  have hblank : ∀ c ∈ List.replicate count ' ', isBlank c = true := fun c hc => by
    rw [List.eq_of_mem_replicate hc]
    rfl
  rw [trimEnd, trimEnd, List.reverse_append, List.reverse_replicate,
    List.dropWhile_append_of_pos hblank]

/-- A text that is written out is printable if its characters are. -/
theorem printable_ofList (h : cs.all isPrintable = true) : Printable (String.ofList cs).toList := by
  rwa [String.toList_ofList]

theorem tidy_ofList (h : cs.all isPrintable = true)
    (hlast : cs.getLast?.any (fun c => !isBlank c) = true) : Tidy (String.ofList cs).toList := by
  rw [String.toList_ofList]
  exact ⟨h, hlast⟩

theorem tidy_padded (width n : Nat) : Tidy (Numeral.padded 16 width n) := by
  have hspells : Numeral.Spells 16 width n _ := Numeral.spells_padded (by decide) (by decide)
  have hprintable : (Numeral.hexDigits.take 16).all isPrintable = true := by decide
  have hnonblank : (Numeral.hexDigits.take 16).all (fun c => !isBlank c) = true := by decide
  obtain ⟨last, hlast⟩ : ∃ last, (Numeral.padded 16 width n).getLast? = some last :=
    ⟨_, List.getLast?_eq_some_getLast Numeral.padded_ne_nil⟩
  refine ⟨List.all_eq_true.2 fun c hc => ?_, ?_⟩
  · exact List.all_eq_true.1 hprintable c (hspells.digits c hc)
  · rw [hlast]
    exact List.all_eq_true.1 hnonblank last (hspells.digits last (List.mem_of_getLast? hlast))

theorem tidy_hex (width n : Nat) : Tidy (Numeral.hex width n).toList := by
  rw [Numeral.hex, String.toList_ofList]
  exact tidy_padded width n

/-! ## Strings -/

theorem Printable.append_string {s t : String} (hs : Printable s.toList) (ht : Printable t.toList) :
    Printable (s ++ t).toList := by
  rw [String.toList_append]
  exact hs.append ht

theorem Printable.append_tidy_string {s t : String} (hs : Printable s.toList)
    (ht : Tidy t.toList) : Tidy (s ++ t).toList := by
  rw [String.toList_append]
  exact hs.append_tidy ht

end Text

namespace Operation

open Text

theorem tidy_registerName (x : Nibble) : Tidy (registerName x).toList :=
  (printable_ofList rfl).append_tidy_string (tidy_hex _ _)

theorem tidy_description (op : Operation) : Tidy op.description.toList := by
  cases op <;> exact tidy_ofList rfl rfl

theorem printable_mnemonic (op : Operation) : Printable op.mnemonic.toList := by
  cases op <;> exact printable_ofList rfl

/-- The line of assembly of an operation that has operands. -/
theorem tidy_mnemonic_append (op : Operation) {operands : String} (h : Tidy operands.toList) :
    Tidy (op.mnemonic ++ " " ++ operands).toList :=
  ((printable_mnemonic op).append_string (printable_ofList rfl)).append_tidy_string h

theorem tidy_text (op : Operation) : Tidy op.text.toList := by
  have hcomma : Printable ",".toList := printable_ofList rfl
  cases op
  case clear | ret => exact tidy_ofList rfl rfl
  all_goals refine tidy_mnemonic_append _ ?_
  case sys | jump | call => exact tidy_hex _ _
  case skipIfByte x byte | skipUnlessByte x byte | setByte x byte | addByte x byte
      | random x byte =>
    exact ((tidy_registerName x).printable.append_string hcomma).append_tidy_string (tidy_hex _ _)
  case skipIfSame x y | skipUnlessSame x y | copy x y | bitOr x y | bitAnd x y | bitXor x y
      | add x y | sub x y | shiftRight x y | subFrom x y | shiftLeft x y =>
    exact ((tidy_registerName x).printable.append_string hcomma).append_tidy_string
      (tidy_registerName y)
  case setIndex | jumpPlus => exact (printable_ofList rfl).append_tidy_string (tidy_hex _ _)
  case draw x y rows =>
    have hpair := ((tidy_registerName x).printable.append_string hcomma).append_string
      (tidy_registerName y).printable
    exact (hpair.append_string hcomma).append_tidy_string (tidy_hex _ _)
  case skipIfPressed x | skipUnlessPressed x => exact tidy_registerName x
  case readDelay x | awaitKey x | loadRegisters x =>
    exact (tidy_registerName x).printable.append_tidy_string (tidy_ofList rfl rfl)
  case setDelay x | setSound x | addIndex x | glyph x | storeDecimal x | storeRegisters x =>
    exact (printable_ofList rfl).append_tidy_string (tidy_registerName x)
  case raw =>
    exact ((tidy_hex _ _).printable.append_string (printable_ofList rfl)).append_tidy_string
      (tidy_hex _ _)

end Operation

namespace Record

open Text

theorem tidy_text (r : Record) : Tidy r.text.toList := by
  cases r with
  | word => exact Operation.tidy_text _
  | byte => exact (printable_ofList rfl).append_tidy_string (tidy_hex _ _)

theorem toNat_ofNat_byte (b : UInt8) : (Char.ofNat b.toNat).toNat = b.toNat := by
  have hb := b.toNat_lt
  have hvalid : b.toNat.isValidChar := .inl (by omega)
  rw [Char.ofNat, dif_pos hvalid]
  rfl

theorem printable_ascii {r : Record} {text : String} (h : r.ascii = some text) :
    Printable text.toList := by
  unfold ascii at h
  split at h
  · rename_i hall
    cases h
    rw [String.toList_ofList]
    refine List.all_eq_true.2 fun c hc => ?_
    obtain ⟨b, hb, rfl⟩ := List.mem_map.1 hc
    rw [Text.isPrintable, toNat_ofNat_byte]
    exact List.all_eq_true.1 hall b hb
  · cases h

end Record

namespace Listing

open Text

theorem Column.tidy_title (c : Column) : Tidy c.title := by
  cases c <;> exact tidy_ofList rfl rfl

/-- A cell is tidy, unless it is empty because not all bytes of the record are printable. -/
theorem Row.tidy_cell (r : Row) (c : Column) :
    Tidy (r.cell c) ∨ c = .ascii ∧ r.cell c = [] := by
  cases c with
  | address => exact .inl (tidy_padded _ _)
  | opcode => exact .inl (tidy_hex _ _)
  | assembly => exact .inl r.record.tidy_text
  | description => exact .inl (Operation.tidy_description _)
  | ascii =>
    cases hascii : r.record.ascii with
    | none =>
      refine .inr ⟨rfl, ?_⟩
      rw [cell, hascii]
    | some text =>
      have hquote : Tidy ['\x60'] := ⟨rfl, rfl⟩
      have hcell : r.cell .ascii = ('\x60' :: text.toList) ++ ['\x60'] := by rw [cell, hascii]
      rw [hcell]
      exact .inl ((hquote.printable.append (Record.printable_ascii hascii)).append_tidy hquote)

end Listing

end Chip8
