import Chip8.Proofs.Footprint

/-!
# The end of memory

An instruction that does not jump leads to the next word, or over it. The program counter has
sixteen bits, and a word is only asked to lie in memory where it is fetched. So a program that runs
past the end of memory stops with the next fetch, as long as the address behind the end is one of
sixteen bits : in a memory of 64 KiB it goes on at address 0. A skip goes one word further, and so
it wraps from the last words of a memory of two bytes less already.

`Machine.run_past_end` says where a program gets that does not jump. The step is `toNat_pc_cycle`,
and a run follows by induction : in a memory that leaves a skip no room to wrap, the addresses that
it fetches from do not go down (`pc_le_of_fetched`).
-/

namespace Chip8

/-- A machine that waits for no key executes the word at the program counter, if memory has it. -/
theorem State.operation?_eq_some_of_le {s : State} (hwait : s.keyWait = none)
    (h : s.pc.toNat + 2 ≤ s.memory.size) : s.operation? = some (Operation.decode s.word) :=
  operation?_eq_some_iff.2 ⟨hwait, s.word, Machine.fetch_ok (Nat.not_lt.2 h), rfl⟩

theorem State.le_size_of_operation? {s : State} {op : Operation} (h : s.operation? = some op) :
    s.pc.toNat + 2 ≤ s.memory.size := by
  obtain ⟨-, hfetch, -⟩ := fetch_of_operation? h
  by_contra hend
  rw [Machine.fetch, if_pos (Nat.not_le.1 hend)] at hfetch
  cases hfetch

theorem State.WellFormed.size_le {s : State} (hs : s.WellFormed) : s.memory.size ≤ 0x10000 := by
  obtain ⟨-, -, -, -, -, hlimit, -⟩ := s.settings.valid_iff.1 hs.valid
  rw [hs.memory]
  exact hlimit

/-- The words that were fetched, each behind its address. -/
def Run.fetches (r : Run) : List (UInt16 × UInt16) :=
  r.log.filterMap fun
    | .fetched address word => some (address, word)
    | _ => none

namespace Machine

variable {m : Machine} {op : Operation} {keyboard : UInt16} {now : Nat}

/-- A machine that waits for no key fails where its word does not lie in memory. -/
theorem fault_cycle_of_end (hwait : m.state.keyWait = none)
    (h : m.state.memory.size < m.state.pc.toNat + 2) (keyboard : UInt16) (now : Nat) :
    (m.cycle keyboard now).fault = some (.invalidMemoryAccess m.state.pc 2) := by
  have hpolled : (m.withKeyboard keyboard).state.keyWait = none := hwait
  have hfetch : fetch (m.withKeyboard keyboard).state =
      .error (.invalidMemoryAccess m.state.pc 2) := if_pos h
  rw [fault_cycle, advance_of_not_waiting hpolled, step_of_fetch_error hfetch]

/-! ## Where a cycle leads -/

theorem toNat_add_step (pc : UInt16) (skips : Bool) :
    (pc + if skips then 4 else 2).toNat = (pc.toNat + if skips then 4 else 2) % 0x10000 := by
  cases skips <;> exact UInt16.toNat_add ..

/-- An instruction that does not jump leads to the next word or over it, in sixteen bits. -/
theorem toNat_pc_cycle (hop : m.state.operation? = some op)
    (hok : (m.cycle keyboard now).fault = none) (hjumps : op.jumps = false) :
    (m.cycle keyboard now).machine.state.pc.toNat =
      (m.state.pc.toNat + if op.skips (m.withKeyboard keyboard).state then 4 else 2) % 0x10000 := by
  obtain ⟨effect, hexecute, hnext⟩ := exists_execute_of_cycle hop hok
  have hpc : effect.machine.state.pc = _ := pc_execute hexecute hjumps
  rw [skips_fetched] at hpc
  have hticked : (effect.machine.tick now).1.state.pc = effect.machine.state.pc := rfl
  rw [hnext, hticked, hpc, ← toNat_add_step]
  exact congrArg UInt16.toNat (pc_fetched _ _)

/-- Only an instruction that asks for a key begins a wait. -/
theorem keyWait_cycle (hop : m.state.operation? = some op)
    (hok : (m.cycle keyboard now).fault = none) (hawait : ∀ x, op ≠ .awaitKey x) :
    (m.cycle keyboard now).machine.state.keyWait = none := by
  obtain ⟨effect, hexecute, hnext⟩ := exists_execute_of_cycle hop hok
  have hfootprint : (op.footprint m.state.legacy).keyWait = false := by
    cases op
    case awaitKey x => exact absurd rfl (hawait x)
    all_goals rfl
  have hkept := (within_execute hexecute).keyWait hfootprint
  rw [hnext]
  exact hkept.trans (State.fetch_of_operation? hop).1

/-- A cycle that waits for a key or finds no word fetches nothing and stays where it is. -/
theorem cycle_of_operation?_eq_none (hop : m.state.operation? = none) :
    (m.cycle keyboard now).fetches = [] ∧
      (m.cycle keyboard now).machine.state.pc = m.state.pc := by
  obtain ⟨wait, -, hadvance⟩ | ⟨fault, hadvance⟩ :=
    advance_of_operation?_eq_none (m := m.withKeyboard keyboard) hop
  · rw [cycle_of_advance_ok (by rw [hadvance, await_fault]), hadvance]
    unfold await
    split <;> exact ⟨rfl, rfl⟩
  · rw [cycle_of_advance_fault (by rw [hadvance]), hadvance]
    exact ⟨rfl, rfl⟩

/-! ## Runs without jumps -/

/-- A cycle fetches the word of its operation, if it has one. -/
theorem fetches_cycle (m : Machine) (keyboard : UInt16) (now : Nat) :
    (m.cycle keyboard now).fetches =
      (m.state.operation?.map fun _ => (m.state.pc, m.state.word)).toList := by
  cases hop : m.state.operation? with
  | none => exact (cycle_of_operation?_eq_none hop).1
  | some op =>
    cases hexecute : (m.withKeyboard keyboard).fetched.execute m.state.pc op with
    | error fault =>
      rw [cycle_of_operation_error hop hexecute]
      rfl
    | ok effect =>
      rw [cycle_of_operation_ok hop hexecute]
      cases op <;> rfl

/-- Where memory leaves a skip no room to wrap, a cycle that does not jump does not go back. -/
theorem pc_le_cycle (hsize : m.state.memory.size < 0xFFFE)
    (hok : (m.cycle keyboard now).fault = none)
    (hjumps : ∀ f ∈ (m.cycle keyboard now).fetches, (Operation.decode f.2).jumps = false) :
    m.state.pc.toNat ≤ (m.cycle keyboard now).machine.state.pc.toNat := by
  cases hop : m.state.operation? with
  | none => exact Nat.le_of_eq (congrArg UInt16.toNat (cycle_of_operation?_eq_none hop).2.symm)
  | some op =>
    have hdecode := (State.fetch_of_operation? hop).2.2
    have hfits := State.le_size_of_operation? hop
    rw [fetches_cycle, hop] at hjumps
    have hnext := toNat_pc_cycle hop hok (hdecode ▸ hjumps _ (List.mem_singleton.2 rfl))
    split_ifs at hnext <;> omega

/-- Along a run that does not jump, no word before the first one is fetched. -/
theorem pc_le_of_fetched (hsize : m.state.memory.size < 0xFFFE) {inputs : List Input}
    (hjumps : ∀ f ∈ (m.run inputs).fetches, (Operation.decode f.2).jumps = false) :
    ∀ f ∈ (m.run inputs).fetches, m.state.pc.toNat ≤ f.1.toNat := by
  induction inputs generalizing m with
  | nil => exact nofun
  | cons i is ih =>
    have hfirst : ∀ f ∈ (m.cycle i.keyboard i.now).fetches, m.state.pc.toNat ≤ f.1.toNat := by
      rw [fetches_cycle]
      cases m.state.operation? with
      | none => exact nofun
      | some op =>
        intro f hf
        obtain rfl := List.mem_singleton.1 hf
        exact Nat.le_refl _
    cases hfault : (m.cycle i.keyboard i.now).fault with
    | some fault =>
      rw [run_of_fault hfault]
      exact hfirst
    | none =>
      have hfetches : (m.run (i :: is)).fetches = (m.cycle i.keyboard i.now).fetches ++
          ((m.cycle i.keyboard i.now).machine.run is).fetches := by
        rw [run_of_ok hfault]
        exact List.filterMap_append
      rw [hfetches] at hjumps ⊢
      obtain ⟨hcycle, hrest⟩ := List.forall_mem_append.1 hjumps
      have hgoes := pc_le_cycle hsize hfault hcycle
      have hsize' : (m.cycle i.keyboard i.now).machine.state.memory.size < 0xFFFE := by
        rwa [(sameShape_cycle m i.keyboard i.now).memory]
      exact List.forall_mem_append.2
        ⟨hfirst, fun f hf => Nat.le_trans hgoes (ih hsize' hrest f hf)⟩

/-! ## Past the end -/

/-- A machine on the last word of its memory that neither jumps, skips nor waits for a key gets to
the address behind it, in sixteen bits. -/
theorem cycle_of_last_word (hlast : m.state.pc.toNat + 2 = m.state.memory.size)
    (hop : m.state.operation? = some op) (hok : (m.cycle keyboard now).fault = none)
    (hjumps : op.jumps = false) (hskips : op.skips (m.withKeyboard keyboard).state = false)
    (hawait : ∀ x, op ≠ .awaitKey x) :
    let next := (m.cycle keyboard now).machine
    next.state.keyWait = none ∧ next.state.memory.size = m.state.memory.size ∧
      next.state.pc = UInt16.ofNat m.state.memory.size := by
  refine ⟨keyWait_cycle hop hok hawait, (sameShape_cycle m keyboard now).memory,
    UInt16.toNat_inj.1 ?_⟩
  rw [toNat_pc_cycle hop hok hjumps, hskips, if_neg Bool.false_ne_true, hlast]
  exact UInt16.toNat_ofNat'.symm

/-- A program that does not jump stays behind the reserved part of memory, where there is no room
for its program counter to wrap. -/
theorem programStart_le_cycle (hop : m.state.operation? = some op)
    (hok : (m.cycle keyboard now).fault = none) (hjumps : op.jumps = false)
    (hpc : programStart ≤ m.state.pc.toNat)
    (hroom : m.state.memory.size < 0xFFFE ∨
      m.state.memory.size < 0x10000 ∧ op.skips (m.withKeyboard keyboard).state = false) :
    programStart ≤ (m.cycle keyboard now).machine.state.pc.toNat := by
  have hfits := State.le_size_of_operation? hop
  have hnext := toNat_pc_cycle hop hok hjumps
  cases hskips : op.skips (m.withKeyboard keyboard).state with
  | false =>
    rw [hskips, if_neg Bool.false_ne_true] at hnext
    omega
  | true =>
    rw [hskips, if_pos rfl] at hnext
    rw [hskips] at hroom
    have hsize := hroom.resolve_right fun h => Bool.false_ne_true h.2.symm
    omega

/-- A machine that executes the last word of its memory, without a jump, a skip or a wait for a key,
fails with the next cycle. In a memory of 64 KiB its program counter wraps instead, and it goes on
with the word at address 0. Elsewhere a cycle that does not jump takes the program counter to the
next word or over it, in sixteen bits : from the program it does not get to the reserved part,
neither by running past the end of a memory of less than 64 KiB nor by a skip past the end of one of
less than two bytes under that, and along a run of such cycles no reserved word is fetched. -/
theorem run_past_end (hm : m.state.WellFormed) :
    (m.state.keyWait = none → m.state.pc.toNat + 2 = m.state.memory.size → ∀ keyboard now,
      let op := Operation.decode m.state.word
      let next := (m.cycle keyboard now).machine
      (m.cycle keyboard now).fault = none → op.jumps = false →
      op.skips (m.withKeyboard keyboard).state = false → (∀ x, op ≠ .awaitKey x) →
        (m.state.memory.size ≠ 0x10000 → ∀ keyboard' now',
          (next.cycle keyboard' now').fault =
            some (.invalidMemoryAccess (UInt16.ofNat m.state.memory.size) 2)) ∧
        (m.state.memory.size = 0x10000 → next.state.pc = 0 ∧
          next.state.operation? = some (Operation.decode
            (wordOf (next.state.memory.read 0) (next.state.memory.read 1))))) ∧
    (∀ op keyboard now, m.state.operation? = some op → op.jumps = false →
      (m.cycle keyboard now).fault = none →
        let skips := op.skips (m.withKeyboard keyboard).state
        let next := (m.cycle keyboard now).machine
        next.state.pc.toNat = (m.state.pc.toNat + if skips then 4 else 2) % 0x10000 ∧
        (programStart ≤ m.state.pc.toNat →
          m.state.memory.size < 0xFFFE ∨ m.state.memory.size < 0x10000 ∧ skips = false →
            programStart ≤ next.state.pc.toNat)) ∧
    (m.state.memory.size < 0xFFFE → programStart ≤ m.state.pc.toNat → ∀ inputs,
      (∀ f ∈ (m.run inputs).fetches, (Operation.decode f.2).jumps = false) →
        ∀ f ∈ (m.run inputs).fetches, programStart ≤ f.1.toNat) := by
  refine ⟨?_, fun op keyboard now hop hjumps hok => ⟨toNat_pc_cycle hop hok hjumps,
    programStart_le_cycle hop hok hjumps⟩, fun hsize hpc inputs hjumps f hf =>
    Nat.le_trans hpc (pc_le_of_fetched hsize hjumps f hf)⟩
  intro hwait hlast keyboard now op next hok hjumps hskips hawait
  have hop : m.state.operation? = some op :=
    State.operation?_eq_some_of_le hwait (Nat.le_of_eq hlast)
  obtain ⟨hwait', hsize, hpc⟩ := cycle_of_last_word hlast hop hok hjumps hskips hawait
  constructor
  · intro hless keyboard' now'
    have hlimit := hm.size_le
    have hend : next.state.memory.size < next.state.pc.toNat + 2 := by
      rw [hpc, hsize, UInt16.toNat_ofNat']
      omega
    rw [fault_cycle_of_end hwait' hend, hpc]
  · intro hfull
    have hzero : next.state.pc = 0 := by
      rw [hpc, hfull]
      rfl
    have hfits : next.state.pc.toNat + 2 ≤ next.state.memory.size := by
      rw [hzero, hsize, hfull]
      decide
    refine ⟨hzero, ?_⟩
    rw [State.operation?_eq_some_of_le hwait' hfits, State.word, hzero, wordOf_eq]
    rfl

/-! ## At the end -/

theorem fault_cycle_sys {address : UInt16} (hop : m.state.operation? = some (.sys address)) :
    (m.cycle keyboard now).fault = none := by
  rw [cycle_of_operation_ok hop rfl]

theorem fault_cycle_skipIfByte {x : Nibble} {byte : UInt8}
    (hop : m.state.operation? = some (.skipIfByte x byte)) :
    (m.cycle keyboard now).fault = none := by
  rw [cycle_of_operation_ok hop rfl]

/-- A new machine that is about to execute a word at an address. -/
def placed (settings : Settings) (pc : UInt16) (high low : UInt8) : Machine :=
  ⟨.holding settings pc [high, low], .ofSeed 0, none⟩

variable {settings : Settings} {pc : UInt16} {high low : UInt8}

theorem memory_placed : (placed settings pc high low).state.memory =
    (State.initial settings).memory.write pc.toNat [high, low] := by
  rw [placed, State.holding]

theorem size_placed :
    (placed settings pc high low).state.memory.size = settings.memorySize.toNat :=
  State.size_memory_holding ..

theorem wellFormed_placed (h : settings.Valid) :
    (placed settings pc high low).state.WellFormed :=
  .holding h _ _

theorem keyWait_placed : (placed settings pc high low).state.keyWait = none := by
  rw [placed, State.holding, State.initial]

theorem pc_placed : (placed settings pc high low).state.pc = pc := by
  rw [placed, State.holding]

theorem operation?_placed (h : pc.toNat + 2 ≤ settings.memorySize.toNat) :
    (placed settings pc high low).state.operation? = some (Operation.decode (wordOf high low)) := by
  have hsize : pc.toNat + 2 ≤ (State.initial settings).memory.size := by
    rwa [← Memory.size_write _ pc.toNat [high, low], ← memory_placed, size_placed]
  have hfirst := Memory.read_write_of_mem _ pc.toNat [high, low] 0 Nat.zero_lt_two hsize
  have hsecond := Memory.read_write_of_mem _ pc.toNat [high, low] 1 Nat.one_lt_two hsize
  have hfits : (placed settings pc high low).state.pc.toNat + 2 ≤
      (placed settings pc high low).state.memory.size := by
    rw [pc_placed, size_placed]
    exact h
  rw [State.operation?_eq_some_of_le keyWait_placed hfits, State.word, pc_placed, memory_placed,
    ← wordOf_eq, hsecond]
  rw [Nat.add_zero] at hfirst
  rw [hfirst]
  rfl

theorem read_font {memory : Memory} (h : Font.bytes.length ≤ memory.size) :
    (memory.write Font.start Font.bytes).read 0 = 0xF0 ∧
      (memory.write Font.start Font.bytes).read 1 = 0x90 :=
  have hsize : Font.start + Font.bytes.length ≤ memory.size := (Nat.zero_add _).symm ▸ h
  ⟨Memory.read_write_of_mem _ Font.start Font.bytes 0 (by decide) hsize,
    Memory.read_write_of_mem _ Font.start Font.bytes 1 (by decide) hsize⟩

/-- The word at address 0 is the beginning of the font. -/
theorem font_placed (h : settings.Valid) (hpc : programStart ≤ pc.toNat) :
    wordOf ((placed settings pc high low).state.memory.read 0)
      ((placed settings pc high low).state.memory.read 1) = 0xF090 := by
  have hbelow : 1 < pc.toNat := Nat.lt_of_lt_of_le (by decide) hpc
  have hfits :
      Font.bytes.length ≤ (Array.replicate settings.memorySize.toNat (0 : UInt8)).size := by
    rw [Array.size_replicate]
    exact Nat.le_trans (by decide) h.programStart_le
  obtain ⟨hfirst, hsecond⟩ := read_font hfits
  have hfirstBelow := Nat.lt_trans Nat.zero_lt_one hbelow
  rw [memory_placed, Memory.read_write_of_not_mem _ _ _ _ (.inl hfirstBelow),
    Memory.read_write_of_not_mem _ _ _ _ (.inl hbelow), State.initial, hfirst, hsecond]
  rfl

theorem memory_fetched_withKeyboard (m : Machine) (keyboard : UInt16) :
    (m.withKeyboard keyboard).fetched.state.memory = m.state.memory := rfl

/-- An instruction that leaves memory alone and gets to address 0 is followed by the word there,
which is none. -/
theorem fault_after_placed (h : settings.Valid) (hpc : programStart ≤ pc.toNat)
    (hfits : pc.toNat + 2 ≤ settings.memorySize.toNat)
    (hdecode : Operation.decode (wordOf high low) = op) (hjumps : op.jumps = false)
    (hawait : ∀ x, op ≠ .awaitKey x) (hmemory : ∀ legacy, (op.footprint legacy).memory = false)
    (hok : ((placed settings pc high low).cycle keyboard now).fault = none)
    (hwraps : (pc.toNat + if op.skips ((placed settings pc high low).withKeyboard keyboard).state
      then 4 else 2) = 0x10000) :
    (((placed settings pc high low).cycle keyboard now).machine.cycle keyboard now).fault =
      some (.invalidInstruction 0xF090 0) := by
  have hop : (placed settings pc high low).state.operation? = some op :=
    hdecode ▸ operation?_placed hfits
  obtain ⟨effect, hexecute, hnext⟩ := exists_execute_of_cycle hop hok
  have hkept : ((placed settings pc high low).cycle keyboard now).machine.state.memory =
      (placed settings pc high low).state.memory := by
    have hexecuted := (within_execute hexecute).memory (hmemory _)
    rw [memory_fetched_withKeyboard] at hexecuted
    rw [hnext, ← hexecuted]
    rfl
  have hzero : ((placed settings pc high low).cycle keyboard now).machine.state.pc = 0 := by
    refine UInt16.toNat_inj.1 ?_
    rw [toNat_pc_cycle hop hok hjumps, pc_placed, hwraps]
    rfl
  have hwait := keyWait_cycle hop hok hawait
  generalize ((placed settings pc high low).cycle keyboard now).machine = next at *
  have hword : next.state.operation? = some (.raw 0xF090) := by
    have hlast : next.state.pc.toNat + 2 ≤ next.state.memory.size := by
      rw [hzero, hkept, size_placed]
      exact Nat.le_trans (by decide) h.programStart_le
    rw [State.operation?_eq_some_of_le hwait hlast, State.word, hzero, hkept, ← wordOf_eq]
    exact congrArg (some ∘ Operation.decode) (font_placed h hpc)
  rw [cycle_of_operation_error hword rfl, hzero]

/-- The last word of the smallest memory : the machine executes it, and fails with the next
cycle. -/
theorem run_past_end_smallest :
    let m := placed .smallest 0x200 0x60 0x05
    m.state.WellFormed ∧ m.state.pc.toNat + 2 = m.state.memory.size ∧ (m.cycle 0 0).fault = none ∧
      (m.cycle 0 0).machine.state.pc.toNat = 0x202 ∧
      ((m.cycle 0 0).machine.cycle 0 0).fault = some (.invalidMemoryAccess 0x202 2) ∧
      (m.run [⟨0, 0⟩, ⟨0, 0⟩]).fetches = [(0x200, 0x6005)] ∧
      ∀ f ∈ (m.run [⟨0, 0⟩, ⟨0, 0⟩]).fetches, programStart ≤ f.1.toNat := by
  intro m
  have hm : m.state.WellFormed := wellFormed_placed Settings.valid_smallest
  have hsize : m.state.memory.size = 0x202 := size_placed
  have hpc : m.state.pc = 0x200 := pc_placed
  have hok : (m.cycle 0 0).fault = none := by decide +kernel
  have hword : Operation.decode m.state.word = .setByte 0 5 := by decide +kernel
  have hop : m.state.operation? = some (.setByte 0 5) := by decide +kernel
  have hfetches : (m.run [⟨0, 0⟩, ⟨0, 0⟩]).fetches = [(0x200, 0x6005)] := by decide +kernel
  obtain ⟨hend, hstep, hrun⟩ := run_past_end hm
  have hlast : m.state.pc.toNat + 2 = m.state.memory.size := by
    rw [hpc, hsize]
    rfl
  have hfault := (hend keyWait_placed hlast 0 0 hok (by rw [hword]; rfl) (by rw [hword]; rfl)
    (by rw [hword]; exact nofun)).1 (by rw [hsize]; decide) 0 0
  rw [hsize] at hfault
  refine ⟨hm, hlast, hok, ?_, hfault, hfetches,
    hrun (by rw [hsize]; decide) (by rw [hpc]; decide) _ ?_⟩
  · rw [(hstep _ 0 0 hop rfl hok).1, hpc]
    rfl
  · rw [hfetches, List.forall_mem_singleton]
    decide

/-- In a memory of 64 KiB, the instruction at its end leads to the font. In one of two bytes less, a
skip does. -/
theorem run_past_end_wraps :
    let full := placed { memorySize := 0x10000 } 0xFFFE 0x00 0x00
    let less := placed { memorySize := 0xFFFE } 0xFFFC 0x30 0x00
    full.state.WellFormed ∧ full.state.memory.size = 0x10000 ∧ full.state.pc = 0xFFFE ∧
      full.state.operation? = some (.sys 0) ∧ (full.cycle 0 0).fault = none ∧
      ((full.cycle 0 0).machine.cycle 0 0).fault = some (.invalidInstruction 0xF090 0) ∧
    less.state.WellFormed ∧ less.state.memory.size = 0xFFFE ∧ less.state.pc = 0xFFFC ∧
      less.state.operation? = some (.skipIfByte 0 0) ∧ (less.cycle 0 0).fault = none ∧
      ((less.cycle 0 0).machine.cycle 0 0).fault = some (.invalidInstruction 0xF090 0) := by
  intro full less
  have hfull : Settings.Valid { memorySize := 0x10000 } := rfl
  have hless : Settings.Valid { memorySize := 0xFFFE } := rfl
  have hop : full.state.operation? = some (.sys 0) := operation?_placed (by decide)
  have hop' : less.state.operation? = some (.skipIfByte 0 0) := operation?_placed (by decide)
  have hok : (full.cycle 0 0).fault = none := fault_cycle_sys hop
  have hok' : (less.cycle 0 0).fault = none := fault_cycle_skipIfByte hop'
  have hskips : (Operation.skipIfByte 0 0).skips (less.withKeyboard 0).state = true := by
    decide +kernel
  refine ⟨wellFormed_placed hfull, size_placed, pc_placed, hop, hok, ?_,
    wellFormed_placed hless, size_placed, pc_placed, hop', hok', ?_⟩
  · have hdecode : Operation.decode (wordOf 0x00 0x00) = .sys 0 := rfl
    exact fault_after_placed hfull (by decide) (by decide) hdecode rfl nofun (fun _ => rfl) hok rfl
  · have hdecode : Operation.decode (wordOf 0x30 0x00) = .skipIfByte 0 0 := rfl
    exact fault_after_placed hless (by decide) (by decide) hdecode rfl nofun (fun _ => rfl) hok'
      (by rw [hskips]; rfl)

end Machine

end Chip8
