import Chip8.Proofs.InRange
import Chip8.Proofs.Instruction
import Chip8.Proofs.Listing

/-!
# Programs that were loaded

A program is read twice : its listing cuts it into records from its first byte on, and a machine
fetches from memory whatever word lies at its program counter. Both readings agree wherever the
program counter is on a word of the program that memory still holds (`State.AtWord`), no matter what
the machine has done before and what has become of the rest of the program. There the cycle is
what its record comes to (`Machine.cycleOn`) : it executes the operation of the record, at the
address that the listing gives it.

`Machine.serve_executes_records` says so of every state that calls of a host lead to, and tells
which programs are loaded in the first place.
-/

namespace Chip8

/-! ## Words of a program -/

/-- Two bytes of a program that make a word make a record. -/
theorem getElem?_records : ∀ {program : List UInt8} {k : Nat} {high low : UInt8},
    program[2 * k]? = some high → program[2 * k + 1]? = some low →
      (records program)[k]? = some (.word high low)
  | [], _, _, _, _, hlow | [_], _, _, _, _, hlow => by
    simp at hlow
  | _ :: _ :: _, 0, _, _, hhigh, hlow => by
    rw [records_cons_cons, Option.some.inj hhigh, Option.some.inj hlow]
    rfl
  | _ :: _ :: _, _ + 1, _, _, hhigh, hlow => by
    rw [records_cons_cons, List.getElem?_cons_succ]
    exact getElem?_records hhigh hlow

namespace Listing

/-- The row of a word is at the place that the word has in memory. -/
theorem getElem?_rows_records {program : List UInt8} {k : Nat} {high low : UInt8}
    (hhigh : program[2 * k]? = some high) (hlow : program[2 * k + 1]? = some low) :
    (rows (records program))[k]? = some ⟨programStart + 2 * k, .word high low⟩ := by
  have hinside : 2 * k + 1 < program.length := (List.getElem?_eq_some_iff.1 hlow).1
  rw [getElem?_rows, getElem?_records hhigh hlow, Option.map_some,
    length_bytes_take_records (show k ≤ program.length / 2 by omega)]

/-- The line behind the header and `k` others shows the address of row `k`. -/
theorem spells_address_line {rs : List Record} {k : Nat} {r : Row} (h : (rows rs)[k]? = some r) :
    ∃ line, (Text.lines (listing false rs).toList)[k + 1]? = some line ∧
      Numeral.Spells 16 4 r.address (field (width (rows rs)) .address line) := by
  refine ⟨line (width (rows rs)) (fun _ => none) r.cell, ?_, ?_⟩
  · rw [lines_listing, lines_plain, List.getElem?_cons_succ, List.getElem?_map, h, Option.map_some]
  · rw [(shown_cell (List.mem_of_getElem? h)).field_line]
    exact Numeral.spells_padded (by decide) (by decide)

end Listing

/-! ## States that are on a word -/

/-- A state that does not wait for a key and has its program counter on word `k` of a program, which
memory still holds there. -/
structure State.AtWord (s : State) (program : List UInt8) (k : Nat) : Prop where
  keyWait : s.keyWait = none
  pc : s.pc.toNat = 0x200 + 2 * k
  high : program[2 * k]? = some (s.memory.read s.pc.toNat)
  low : program[2 * k + 1]? = some (s.memory.read (s.pc.toNat + 1))

namespace State

variable {s : State} {program : List UInt8} {k : Nat}

/-- The record of the word at the program counter. -/
def record (s : State) : Record :=
  .word (s.memory.read s.pc.toNat) (s.memory.read (s.pc.toNat + 1))

theorem opcode_record (s : State) : s.record.opcode = s.word := wordOf_eq _ _

theorem operation_record (s : State) : s.record.operation = Operation.decode s.word :=
  congrArg Operation.decode s.opcode_record

/-- As the whole program was loaded, the word lies in memory. -/
theorem AtWord.operation?_eq (h : s.AtWord program k)
    (hsize : programStart + program.length ≤ s.memory.size) :
    s.operation? = some s.record.operation := by
  have hinside : 2 * k + 1 < program.length := (List.getElem?_eq_some_iff.1 h.low).1
  have hfetch : ¬s.memory.size < s.pc.toNat + 2 := by
    unfold programStart at hsize
    rw [h.pc]
    omega
  rw [operation_record]
  exact operation?_eq_some_iff.2 ⟨h.keyWait, s.word, Machine.fetch_ok hfetch, rfl⟩

end State

namespace Machine

variable {m loaded : Machine}

/-! ## The cycle of a record -/

/-- A cycle that carries out a record : it executes the operation of the record and logs its opcode,
whatever memory has at the program counter. -/
def cycleOn (m : Machine) (r : Record) (i : Input) : Run :=
  let fetched := (m.withKeyboard i.keyboard).fetched
  let entry := LogEntry.fetched m.state.pc r.opcode
  match fetched.execute m.state.pc r.operation with
  | .error fault =>
    { machine := fetched, callbacks := [.cycle], log := [entry], fault := some fault }
  | .ok effect =>
    let (ticked, beeps) := effect.machine.tick i.now
    { machine := ticked
      callbacks := .cycle :: effect.callbacks ++ List.replicate beeps .beep
      log := entry :: LogEntry.ofOperation r.operation }

theorem cycle_eq_cycleOn {r : Record} (hop : m.state.operation? = some r.operation)
    (hword : m.state.word = r.opcode) (i : Input) :
    m.cycle i.keyboard i.now = m.cycleOn r i := by
  unfold cycleOn
  dsimp only
  cases hexecute : (m.withKeyboard i.keyboard).fetched.execute m.state.pc r.operation with
  | error fault => rw [cycle_of_operation_error hop hexecute, hword]
  | ok effect => rw [cycle_of_operation_ok hop hexecute, hword]

/-- The only fault that speaks of an instruction is that the word spells none. -/
theorem wordFault_eq_invalidInstruction {s : State} {word opcode address : UInt16}
    (h : s.wordFault word = some (.invalidInstruction opcode address)) :
    opcode = word ∧ address = s.pc := by
  have hblock : ∀ length least,
      s.blockFault length least ≠ some (.invalidInstruction opcode address) := by
    intro length least
    unfold State.blockFault
    split_ifs <;> nofun
  unfold State.wordFault at h
  cases hop : Operation.decode word <;> rw [hop] at h
  case raw =>
    cases h
    exact ⟨rfl, rfl⟩
  case ret | call =>
    dsimp only at h
    split_ifs at h
    cases h
  case storeDecimal | storeRegisters | loadRegisters | draw => exact absurd h (hblock _ _)
  all_goals cases h

/-- A cycle that carries out a record fails for its opcode only where the machine is. -/
theorem fault_cycleOn_record (hm : m.state.WellFormed) {i : Input} {opcode address : UInt16}
    (h : (m.cycleOn m.state.record i).fault = some (.invalidInstruction opcode address)) :
    opcode = m.state.record.opcode ∧ address = m.state.pc := by
  have hpolled := hm.of_sameShape (m.sameShape_withKeyboard i.keyboard)
  have hfault := faultOf_execute hpolled m.state.word
  have hcycle : (m.cycleOn m.state.record i).fault =
      faultOf ((m.withKeyboard i.keyboard).fetched.execute m.state.pc
        (Operation.decode m.state.word)) := by
    unfold cycleOn
    dsimp only
    rw [State.operation_record]
    split <;> simp only [*, faultOf]
  rw [hcycle] at h
  rw [State.opcode_record]
  exact wordFault_eq_invalidInstruction (hfault.symm.trans h)

/-! ## Loading -/

theorem load_eq_error_iff (m : Machine) (program : List UInt8) :
    (∃ fault, m.load program = .error fault) ↔ m.state.freeMemory < program.length := by
  unfold load
  split_ifs with hlong
  · exact ⟨fun _ => hlong, fun _ => ⟨_, rfl⟩⟩
  · exact ⟨nofun, fun h => absurd h hlong⟩

theorem sameShape_and_fits_of_load {program : List UInt8} (hm : m.state.WellFormed)
    (h : m.load program = .ok loaded) :
    m.state.SameShape loaded.state ∧ programStart + program.length ≤ m.state.memory.size := by
  have hstart := hm.programStart_le
  have hfits : ¬m.state.freeMemory < program.length := fun hlong => by
    obtain ⟨fault, hfault⟩ := (load_eq_error_iff m program).2 hlong
    rw [h] at hfault
    cases hfault
  unfold State.freeMemory at hfits
  exact ⟨sameShape_load h, by omega⟩

/-- Where the program counter is on a word of the program that memory still holds, the cycle is what
the record of that word comes to. -/
theorem cycle_of_atWord {n : Machine} (hn : n.state.WellFormed) {program : List UInt8} {k : Nat}
    (hsize : programStart + program.length ≤ n.state.memory.size)
    (h : n.state.AtWord program k) : ∃ r, (records program)[k]? = some r ∧
      n.state.operation? = some r.operation ∧
      (Listing.rows (records program))[k]? = some ⟨n.state.pc.toNat, r⟩ ∧
      ∀ i : Input, n.cycle i.keyboard i.now = n.cycleOn r i ∧
        ∀ opcode address, (n.cycleOn r i).fault = some (.invalidInstruction opcode address) →
          opcode = r.opcode ∧ address = n.state.pc := by
  have hop := h.operation?_eq hsize
  refine ⟨n.state.record, getElem?_records h.high h.low, hop, ?_, fun i => ?_⟩
  · rw [h.pc]
    exact Listing.getElem?_rows_records h.high h.low
  · exact ⟨cycle_eq_cycleOn hop n.state.opcode_record.symm i,
      fun opcode address => fault_cycleOn_record hn⟩

/-- A program is loaded exactly if it fits the memory behind `0x200`, and one that is not changes
nothing, also where loading changes memory in place.

From then on, in every state that calls of the host lead to, the next cycle carries out record `k`
of the program if the program counter is on its word `k` and memory still holds that word. The
listing of the program gives the record the address at which it is carried out. -/
theorem serve_executes_records {settings : Settings} (h : settings.Valid) (random : Random) :
    ∃ built, Machine.new settings random = .ok built ∧
      ∀ (before : List Call) (program : List UInt8),
      let m := built.serve before
      ((∃ fault, m.load program = .error fault) ↔
        settings.memorySize.toNat - 0x200 < program.length) ∧
      (∀ fault, m.load program = .error fault → (m.answer (.load program)).machine = m ∧
        ∀ told, (InPlace.answer (.load program)).run ⟨m, told⟩ = some (.error fault, ⟨m, told⟩)) ∧
      ∀ loaded, m.load program = .ok loaded → ∀ (after : List Call) (k : Nat),
        let n := loaded.serve after
        n.state.AtWord program k → ∃ r, (records program)[k]? = some r ∧
          n.state.operation? = some r.operation ∧
          (∀ i : Input, n.cycle i.keyboard i.now = n.cycleOn r i ∧
            ∀ opcode address,
              (n.cycle i.keyboard i.now).fault = some (.invalidInstruction opcode address) →
                opcode = r.opcode ∧ address = n.state.pc) ∧
          let rows := Listing.rows (records program)
          rows[k]? = some ⟨n.state.pc.toNat, r⟩ ∧
          ∃ line, (Text.lines (listing false (records program)).toList)[k + 1]? = some line ∧
            Numeral.Spells 16 4 n.state.pc.toNat
              (Listing.field (Listing.width rows) .address line) := by
  obtain ⟨built, hnew, hbuilt, hsettings⟩ := exists_new_eq_ok h random
  refine ⟨built, hnew, fun before program => ?_⟩
  intro m
  have hshape : built.state.SameShape m.state := sameShape_serve built before
  have hm := hbuilt.of_sameShape hshape
  have hfree : m.state.freeMemory = settings.memorySize.toNat - 0x200 := by
    rw [State.freeMemory, hm.memory, hshape.settings, hsettings]
    rfl
  refine ⟨hfree ▸ load_eq_error_iff m program, fun fault hfault => ⟨?_, fun told => ?_⟩,
    fun loaded hload after k => ?_⟩
  · rw [answer, hfault]
  · rw [InPlace.run_answer told hm, answer, hfault]
    simp only [InPlace.outcome, Run.result, List.append_nil]
  · intro n hat
    obtain ⟨hloaded, hfits⟩ := sameShape_and_fits_of_load hm hload
    have hserved := hloaded.trans (sameShape_serve loaded after)
    have hsize : programStart + program.length ≤ n.state.memory.size := by
      rw [hserved.memory]
      exact hfits
    obtain ⟨r, hr, hop, hrow, hcycle⟩ := cycle_of_atWord (hm.of_sameShape hserved) hsize hat
    refine ⟨r, hr, hop, fun i => ?_, hrow, Listing.spells_address_line hrow⟩
    obtain ⟨heq, hfault⟩ := hcycle i
    exact ⟨heq, fun opcode address hcycle => hfault opcode address (heq ▸ hcycle)⟩

/-- The third instruction of a program whose first one has been stored over is still carried out as
the third record, which spells no operation. -/
theorem serve_executes_records_third : ∃ (built loaded n : Machine) (r : Record),
    Machine.new { Settings.smallest with memorySize := 0x206 } (.ofSeed 0) = .ok built ∧
      built.load [0xA2, 0x00, 0xF0, 0x55, 0xFF, 0xFE] = .ok loaded ∧
      loaded.serve [.cycle ⟨0, 0⟩, .cycle ⟨0, 0⟩] = n ∧
      n.state.memory.read 0x200 = 0 ∧ n.state.pc = 0x204 ∧
      (records [0xA2, 0x00, 0xF0, 0x55, 0xFF, 0xFE])[2]? = some r ∧
      n.cycle 0 0 = n.cycleOn r ⟨0, 0⟩ ∧
      (n.cycle 0 0).fault = some (.invalidInstruction r.opcode 0x204) := by
  have hvalid : Settings.Valid { Settings.smallest with memorySize := 0x206 } := rfl
  let program : List UInt8 := [0xA2, 0x00, 0xF0, 0x55, 0xFF, 0xFE]
  let larger : Settings := { Settings.smallest with memorySize := 0x206 }
  let loaded : Machine := ⟨.holding larger 0x200 program, .ofSeed 0, none⟩
  let calls : List Call := [.cycle ⟨0, 0⟩, .cycle ⟨0, 0⟩]
  have hload : load ⟨.initial larger, .ofSeed 0, none⟩ program = .ok loaded :=
    load_initial _ (by decide)
  obtain ⟨n, hn, hwait, hpc, hword, hoverwritten, hfault⟩ : ∃ n, loaded.serve calls = n ∧
      n.state.keyWait = none ∧ n.state.pc = 0x204 ∧ n.state.memory.slice 0x204 2 = [0xFF, 0xFE] ∧
      n.state.memory.read 0x200 = 0 ∧
      (n.cycle 0 0).fault = some (.invalidInstruction 0xFFFE 0x204) :=
    ⟨_, rfl, by decide +kernel⟩
  obtain ⟨hhigh, hrest⟩ := List.cons.inj hword
  obtain ⟨hlow, -⟩ := List.cons.inj hrest
  have hat : n.state.AtWord program 2 :=
    ⟨hwait, by rw [hpc]; rfl, by rw [hpc]; exact congrArg some hhigh.symm,
      by rw [hpc]; exact congrArg some hlow.symm⟩
  obtain ⟨built', hbuilt, hserve⟩ := serve_executes_records hvalid (.ofSeed 0)
  obtain rfl := Except.ok.inj ((new_eq_ok hvalid _).symm.trans hbuilt)
  obtain ⟨-, -, hrecord⟩ := hserve [] program
  obtain ⟨r, hr, -, hcycle, -⟩ := hrecord loaded hload calls 2 (hn ▸ hat)
  rw [hn] at hcycle
  obtain ⟨heq, hinvalid⟩ := hcycle ⟨0, 0⟩
  obtain ⟨hopcode, -⟩ := hinvalid _ _ hfault
  exact ⟨_, loaded, n, r, hbuilt, hload, hn, hoverwritten, hpc, hr, heq, hopcode ▸ hfault⟩

end Machine

end Chip8
