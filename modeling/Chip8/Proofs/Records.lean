import Chip8.Record
import Chip8.Proofs.Fault
import Chip8.Proofs.Numeral

/-!
# The records of a program

Cutting a program into records loses none of its bytes : the bytes of the records, behind each
other, are the program (`flatMap_bytes_records`), and the number of records and the size of each
follow from its length. `recordsByWords` is the way to the records in two steps, the words of the
program and then a byte that is left over. Neither step fails (`recordsByWords_eq`).

The hex digits of an opcode are those of its bytes (`Record.toList_opcodeText`).
-/

namespace Chip8

namespace Record

/-- An opcode is the digits of its bytes, two for each. -/
theorem toList_opcodeText (r : Record) :
    r.opcodeText.toList = r.bytes.flatMap fun b => Numeral.padded 16 2 b.toNat := by
  rw [opcodeText, Numeral.hex, String.toList_ofList]
  cases r with
  | byte value => exact (List.append_nil _).symm
  | word high low =>
    have hl := low.toNat_lt
    have hfirst : (0x100 * high.toNat + low.toNat) / 16 / 16 = high.toNat := by omega
    have hthird : (0x100 * high.toNat + low.toNat) / 16 % 16 = low.toNat / 16 := by omega
    have hfourth : (0x100 * high.toNat + low.toNat) % 16 = low.toNat % 16 := by omega
    calc Numeral.padded 16 4 (wordOf high low).toNat
        = Numeral.padded 16 2 high.toNat ++ Numeral.padded 16 2 low.toNat := by
          rw [toNat_wordOf, Numeral.padded_succ (by omega) (by omega),
            Numeral.padded_succ (by omega) (by omega), hfirst, hthird, hfourth,
            Numeral.padded_byte low, List.append_assoc]
          rfl
      _ = [high, low].flatMap fun b => Numeral.padded 16 2 b.toNat := by
          rw [List.flatMap_cons, List.flatMap_singleton]

theorem length_opcodeText_le (r : Record) : r.opcodeText.toList.length ≤ 4 := by
  have hbyte : ∀ b : UInt8, (Numeral.padded 16 2 b.toNat).length = 2 := fun b =>
    Numeral.length_padded (by omega) (by omega) b.toNat_lt
  rw [toList_opcodeText]
  cases r <;> simp [bytes, hbyte]

end Record

/-! ## Cutting a program -/

theorem flatMap_bytes_records : ∀ program, (records program).flatMap Record.bytes = program
  | [] => rfl
  | [_] => rfl
  | high :: low :: rest => by
    rw [records_cons_cons, List.flatMap_cons, flatMap_bytes_records rest]
    rfl

/-- All records are words, but for a byte behind the last one if the length is odd. -/
theorem map_size_records : ∀ program : List UInt8, (records program).map Record.size =
    List.replicate (program.length / 2) 2 ++ List.replicate (program.length % 2) 1
  | [] => rfl
  | [_] => by
    rw [records_singleton, List.length_singleton]
    rfl
  | high :: low :: rest => by
    have hdiv : (rest.length + 2) / 2 = rest.length / 2 + 1 := by omega
    have hmod : (rest.length + 2) % 2 = rest.length % 2 := by omega
    rw [records_cons_cons, List.map_cons, map_size_records rest, List.length_cons,
      List.length_cons, hdiv, hmod, List.replicate_succ]
    rfl

theorem length_records (program : List UInt8) :
    (records program).length = (program.length + 1) / 2 := by
  have hsizes := congrArg List.length (map_size_records program)
  rw [List.length_map, List.length_append, List.length_replicate, List.length_replicate] at hsizes
  omega

/-- Words take two bytes each. -/
theorem length_bytes_take_records : ∀ {k : Nat} {program : List UInt8}, k ≤ program.length / 2 →
    (((records program).take k).flatMap Record.bytes).length = 2 * k
  | 0, _, _ => rfl
  | k + 1, [], h | k + 1, [_], h => by
    simp at h
  | k + 1, high :: low :: rest, h => by
    have hrest : k ≤ rest.length / 2 := by
      rw [List.length_cons, List.length_cons] at h
      omega
    rw [records_cons_cons, List.take_succ_cons, List.flatMap_cons, List.length_append,
      length_bytes_take_records hrest, Record.bytes, List.length_cons, List.length_singleton]
    omega

theorem records_append : ∀ {front : List UInt8} (rest : List UInt8), front.length % 2 = 0 →
    records (front ++ rest) = records front ++ records rest
  | [], _, _ => rfl
  | [_], _, h => by
    cases h
  | high :: low :: front, rest, h => by
    have hfront : front.length % 2 = 0 := by
      rw [List.length_cons, List.length_cons] at h
      omega
    rw [List.cons_append, List.cons_append, records_cons_cons, records_append rest hfront,
      records_cons_cons, List.cons_append]

/-! ## Two steps -/

theorem disassemble_eq_ok_iff {program : List UInt8} {rs : List Record} :
    disassemble program = .ok rs ↔ program.length % 2 = 0 ∧ rs = records program := by
  unfold disassemble
  split
  · rename_i heven
    exact ⟨fun h => ⟨heven, (Except.ok.inj h).symm⟩, fun h => congrArg _ h.2.symm⟩
  · rename_i hodd
    exact ⟨nofun, fun h => absurd h.1 hodd⟩

/-- The records of a program in two steps : the words first, and then a byte that is left over. -/
def recordsByWords (program : List UInt8) : Except Fault (List Record) := do
  let even := program.length - program.length % 2
  let words ← disassemble (program.take even)
  if even < program.length then
    let last ← Record.ofBytes (program.drop even)
    return words ++ [last]
  else
    return words

theorem recordsByWords_eq (program : List UInt8) :
    recordsByWords program = .ok (records program) := by
  let even := program.length - program.length % 2
  have hfront : (program.take even).length % 2 = 0 := by
    rw [List.length_take]
    omega
  have hwords : disassemble (program.take even) = .ok (records (program.take even)) :=
    disassemble_eq_ok_iff.2 ⟨hfront, rfl⟩
  have hrecords : records program = records (program.take even) ++ records (program.drop even) := by
    rw [← records_append _ hfront, List.take_append_drop]
  have hsteps : recordsByWords program =
      if even < program.length then
        (Record.ofBytes (program.drop even)).map (records (program.take even) ++ [·])
      else .ok (records (program.take even)) := by
    rw [recordsByWords, hwords]
    rfl
  rw [hsteps, hrecords]
  split
  · rename_i hodd
    obtain ⟨last, hlast⟩ := List.length_eq_one_iff.1
      (show (program.drop even).length = 1 by rw [List.length_drop]; omega)
    rw [hlast]
    rfl
  · rename_i heven
    rw [List.drop_of_length_le (Nat.le_of_not_lt heven), records_nil, List.append_nil]

end Chip8
