import Chip8.Proofs.Footprint
import Chip8.Proofs.Mode
import Chip8.Proofs.Reserved
import Mathlib.Algebra.Ring.Nat

/-!
# Blocks of registers

The registers up to one of them can be stored to memory and loaded again, from the index register
on. Both ways the block has to pass the same check, and legacy mode moves the index register behind
it. What is here holds of the operation by itself and of a cycle that executes it
(`Machine.Performs`).

A store that succeeds is described once (`State.Stored`), and so is a load (`State.Loaded`); that a
load gives back what was stored follows from the two. Stores in a row are an inductive relation,
`Machine.Storing`, which lets anything happen between them that touches neither memory nor the index
register. A later store begins where the blocks so far end, and so leaves them alone
(`State.Stored.followed`); the induction over the relation has no other step.

`Machine.stored_registers_load` puts these together.
-/

namespace Chip8

/-- The registers up to the last one that is stored, and what is in all of them at the time. -/
structure RegisterBlock where
  /-- The last register of the block. -/
  last : Nibble
  /-- The registers `V0` to `VF`. -/
  registers : Vector UInt8 16

namespace RegisterBlock

/-- How many registers the block has. -/
def length (b : RegisterBlock) : Nat := b.last.val + 1

/-- The block as it lies in memory. -/
def bytes (b : RegisterBlock) : List UInt8 := b.registers.toList.take b.length

@[simp] theorem length_bytes (b : RegisterBlock) : b.bytes.length = b.length := by
  have hlast := b.last.isLt
  simp only [bytes, length, List.length_take, Vector.length_toList]
  omega

theorem length_flatMap_bytes (blocks : List RegisterBlock) :
    (blocks.flatMap bytes).length = (blocks.map length).sum := by
  simp only [List.length_flatMap, length_bytes]

end RegisterBlock

/-! ## What a store and a load do -/

namespace State

/-- The registers up to `VX`. -/
def blockTo (s : State) (x : Nibble) : RegisterBlock := ⟨x, s.registers⟩

/-- `t` is what a store of the registers up to `VX` makes of `s` : they lie in memory from the index
register on, and legacy mode has moved the index register behind them. -/
structure Stored (x : Nibble) (s t : State) : Prop where
  checked : s.checkBlock (x.val + 1) = .ok ()
  block : t.memory.slice s.index.toNat (x.val + 1) = (s.blockTo x).bytes
  changed : s.memory.ChangedIn (fun a => s.index.toNat ≤ a ∧ a < s.index.toNat + (x.val + 1))
    t.memory
  index : t.index.toNat = s.index.toNat + if s.legacy then x.val + 1 else 0
  legacy : t.legacy = s.legacy

/-- `t` is what a load of the registers up to `VY` makes of `s` : they are what lies in memory from
the index register on. -/
structure Loaded (y : Nibble) (s t : State) : Prop where
  block : ∀ k ≤ y, t.register k = s.memory.read (s.index.toNat + k.val)
  rest : ∀ k, y < k → t.register k = s.register k

/-- `t` has the bytes in memory that lie behind each other from the index register of `s` on, and
its own index register is behind them. -/
structure Followed (bytes : List UInt8) (s t : State) : Prop where
  block : t.memory.slice s.index.toNat bytes.length = bytes
  changed : s.memory.ChangedIn (fun a => s.index.toNat ≤ a ∧ a < s.index.toNat + bytes.length)
    t.memory
  index : t.index.toNat = s.index.toNat + bytes.length

variable {x : Nibble} {s t u : State}

/-- Each register is in its own byte. -/
theorem Stored.read (h : s.Stored x t) {j : Nibble} (hj : j ≤ x) :
    t.memory.read (s.index.toNat + j.val) = s.register j := by
  have hlt : j.val < (t.memory.slice s.index.toNat (x.val + 1)).length := by
    rw [Memory.length_slice]
    exact Nat.lt_succ_of_le hj
  rw [← Memory.getElem_slice _ _ _ _ hlt]
  simp only [h.block, RegisterBlock.bytes, List.getElem_take, Vector.getElem_toList]
  rfl

/-- What follows a store in legacy mode begins behind its block, which it leaves alone. -/
theorem Stored.followed {bytes : List UInt8} (h : s.Stored x t) (hlegacy : s.legacy = true)
    (hu : t.Followed bytes u) : s.Followed ((s.blockTo x).bytes ++ bytes) u := by
  have hindex : t.index.toNat = s.index.toNat + (x.val + 1) := by
    rw [h.index, if_pos hlegacy]
  have hlength : ((s.blockTo x).bytes ++ bytes).length = x.val + 1 + bytes.length := by
    rw [List.length_append, RegisterBlock.length_bytes]
    rfl
  have hfirst : u.memory.slice s.index.toNat (x.val + 1) = (s.blockTo x).bytes :=
    (hu.changed.slice_eq fun a _ hlt hin => by omega).trans h.block
  refine ⟨?_, ?_, ?_⟩
  · rw [hlength, Memory.slice_add, hfirst, ← hindex, hu.block]
  · rw [hlength]
    exact (h.changed.mono fun a ha => by omega).trans (hu.changed.mono fun a ha => by omega)
  · rw [hu.index, hindex, hlength, Nat.add_assoc]

end State

namespace Machine

variable {m n : Machine} {x y : Nibble} {address : UInt16} {effect : Effect}

/-- The index register behind a block that was checked, without a wrap. -/
theorem toNat_indexAfter {s : State} {count : Nat} (h : s.checkBlock count = .ok ()) :
    (indexAfter s count).toNat = s.index.toNat + if s.legacy then count else 0 := by
  unfold indexAfter
  split
  · exact s.toNat_index_add h
  · rfl

theorem stored_execute (h : m.execute address (.storeRegisters x) = .ok effect) :
    m.state.Stored x effect.machine.state := by
  have hchanged := (memory_execute h).mono fun a ha => ha.2
  simp only [execute] at h
  split at h
  · cases h
  rename_i hcheck
  cases h
  obtain ⟨-, hfits, -⟩ := State.checkBlock_eq_ok_iff.1 hcheck
  have hlength : (m.state.blockTo x).bytes.length = x.val + 1 := RegisterBlock.length_bytes _
  have hblock := Memory.slice_write m.state.memory m.state.index.toNat (m.state.blockTo x).bytes
    (by rwa [hlength])
  rw [hlength] at hblock
  exact ⟨hcheck, hblock, hchanged, toNat_indexAfter hcheck, rfl⟩

theorem loaded_execute (h : n.execute address (.loadRegisters y) = .ok effect) :
    n.state.Loaded y effect.machine.state := by
  simp only [execute] at h
  split at h <;> cases h
  have hregister : ∀ k : Nibble, (loadedRegisters n.state n.state.index.toNat (y.val + 1))[k] =
      if k.val < y.val + 1 then n.state.memory.read (n.state.index.toNat + k.val)
      else n.state.register k := fun k => Vector.getElem_ofFn _
  refine ⟨fun k hk => ?_, fun k hk => ?_⟩
  · exact (hregister k).trans (if_pos (Nat.lt_succ_of_le hk))
  · exact (hregister k).trans (if_neg (Nat.not_lt_of_le hk))

theorem execute_loadRegisters (h : n.state.checkBlock (y.val + 1) = .ok ()) (address : UInt16) :
    ∃ effect, n.execute address (.loadRegisters y) = .ok effect := by
  simp only [execute, h]
  exact ⟨_, rfl⟩

/-! ## By themselves and in cycles -/

/-- `m'` is what an operation that succeeds makes of `m`, by itself or in a cycle. -/
inductive Performs (op : Operation) : Machine → Machine → Prop
  | execute {m : Machine} {address : UInt16} {effect : Effect}
      (h : m.execute address op = .ok effect) : Performs op m effect.machine
  | cycle {m : Machine} {keyboard : UInt16} {now : Nat} (hop : m.state.operation? = some op)
      (hok : (m.cycle keyboard now).fault = none) : Performs op m (m.cycle keyboard now).machine

/-- An operation does not fail, wherever it was fetched, and neither does a cycle that executes
it. -/
def Succeeds (op : Operation) (m : Machine) : Prop :=
  (∀ address, ∃ effect, m.execute address op = .ok effect) ∧
    ∀ keyboard now, m.state.operation? = some op → (m.cycle keyboard now).fault = none

variable {op : Operation} {keyboard : UInt16} {now : Nat}

/-- An operation stores the same in a cycle : neither the poll of the keys and the fetch before it
nor the ticks behind it touch what is stored. -/
theorem Performs.stored (h : m.Performs (.storeRegisters x) n) : m.state.Stored x n.state := by
  cases h with
  | execute h => exact stored_execute h
  | cycle hop hok =>
    obtain ⟨effect, hexecute, hnext⟩ := exists_execute_of_cycle hop hok
    rw [hnext]
    exact { stored_execute hexecute with }

theorem Performs.loaded (h : m.Performs (.loadRegisters y) n) : m.state.Loaded y n.state := by
  cases h with
  | execute h => exact loaded_execute h
  | cycle hop hok =>
    obtain ⟨effect, hexecute, hnext⟩ := exists_execute_of_cycle hop hok
    rw [hnext]
    exact { loaded_execute hexecute with }

theorem succeeds_loadRegisters (h : n.state.checkBlock (y.val + 1) = .ok ()) :
    n.Succeeds (.loadRegisters y) := by
  refine ⟨execute_loadRegisters h, fun keyboard now hop => ?_⟩
  have hfetched : (n.withKeyboard keyboard).fetched.state.checkBlock (y.val + 1) = .ok () := h
  obtain ⟨effect, hexecute⟩ := execute_loadRegisters hfetched n.state.pc
  rw [cycle_of_operation_ok hop hexecute]

/-! ## Stores in a row -/

/-- Stores that succeed take `m` to `m'`, each of its own block. What happens between them touches
neither memory nor the index register, but may change the registers and everything else. -/
inductive Storing : List RegisterBlock → Machine → Machine → Prop
  | done (m : Machine) : Storing [] m m
  | between {blocks : List RegisterBlock} {m n m' : Machine}
      (hmemory : n.state.memory = m.state.memory) (hindex : n.state.index = m.state.index)
      (hlegacy : n.state.legacy = m.state.legacy) (h : Storing blocks n m') : Storing blocks m m'
  | store {blocks : List RegisterBlock} {m n m' : Machine} {x : Nibble}
      (hstore : m.Performs (.storeRegisters x) n) (h : Storing blocks n m') :
      Storing (m.state.blockTo x :: blocks) m m'

theorem Storing.followed {blocks : List RegisterBlock} {m m' : Machine} (h : Storing blocks m m')
    (hlegacy : m.state.legacy = true) :
    m.state.Followed (blocks.flatMap RegisterBlock.bytes) m'.state := by
  induction h with
  | done m => exact ⟨rfl, .refl _, rfl⟩
  | between hmemory hindex hmode _ ih =>
    have hn := ih (hmode.trans hlegacy)
    refine ⟨hindex ▸ hn.block, ?_, hindex ▸ hn.index⟩
    rw [← hmemory, ← hindex]
    exact hn.changed
  | store hstore _ ih =>
    have hstored := hstore.stored
    exact hstored.followed hlegacy (ih (hstored.legacy.trans hlegacy))

/-- A cycle may stand between stores if its operation changes neither memory nor the index register
(`Operation.footprint`). -/
theorem Storing.cycle {blocks : List RegisterBlock} {m' : Machine}
    (h : Storing blocks (m.cycle keyboard now).machine m')
    (hop : m.state.operation? = some op) (hok : (m.cycle keyboard now).fault = none)
    (hmemory : (op.footprint m.state.legacy).memory = false)
    (hindex : (op.footprint m.state.legacy).index = false) : Storing blocks m m' := by
  obtain ⟨hwithin, -, -, hnext⟩ := cycle_within_footprint hop hok
  refine .between ?_ ?_ ?_ h
  · rw [hnext]
    exact hwithin.memory hmemory
  · rw [hnext]
    exact hwithin.index hindex
  · rw [hnext]
    exact congrArg Settings.legacyMode hwithin.shape.settings

/-- A store of the registers up to `VX` that succeeds, by itself or in a cycle, puts each of them
into its byte from the index register on and changes no other byte. In legacy mode the index
register is then behind the block, without a wrap; otherwise it stays. From a machine that has the
bytes of the block still and the index register where it was, and whatever else, the registers up to
`VY` can be loaded for all `Y` up to `X`. That does not fail; it gives back what was stored, and
leaves the other registers alone. In legacy mode stores in a row lay their blocks behind each other
and leave the index register behind the last one. -/
theorem stored_registers_load (m : Machine) :
    let start := m.state.index.toNat
    (∀ (x : Nibble) (stored : Machine), m.Performs (.storeRegisters x) stored →
      (∀ j ≤ x, stored.state.memory.read (start + j.val) = m.state.register j) ∧
      (∀ a, a < start ∨ start + x.val < a →
        stored.state.memory.read a = m.state.memory.read a) ∧
      stored.state.memory.size = m.state.memory.size ∧
      (m.state.legacy = false → stored.state.index = m.state.index) ∧
      (m.state.legacy = true → stored.state.index.toNat = start + x.val + 1) ∧
      ∀ n : Machine, n.state.memory.size = stored.state.memory.size →
        (∀ j ≤ x,
          n.state.memory.read (start + j.val) = stored.state.memory.read (start + j.val)) →
        n.state.index = m.state.index →
        ∀ y ≤ x, n.Succeeds (.loadRegisters y) ∧
          ∀ loaded, n.Performs (.loadRegisters y) loaded →
            (∀ k ≤ y, loaded.state.register k = m.state.register k) ∧
            ∀ k, y < k → loaded.state.register k = n.state.register k) ∧
    (m.state.legacy = true → ∀ (blocks : List RegisterBlock) (m' : Machine), Storing blocks m m' →
      let total := (blocks.map fun b => b.last.val + 1).sum
      m'.state.memory.slice start total = blocks.flatMap RegisterBlock.bytes ∧
      (∀ a, a < start ∨ start + total ≤ a → m'.state.memory.read a = m.state.memory.read a) ∧
      m'.state.memory.size = m.state.memory.size ∧
      m'.state.index.toNat = start + total) := by
  intro start
  refine ⟨fun x stored hstore => ?_, fun hlegacy blocks m' hstoring => ?_⟩
  · have hstored := hstore.stored
    obtain ⟨hstart, hfits, hend⟩ := State.checkBlock_eq_ok_iff.1 hstored.checked
    refine ⟨fun j hj => hstored.read hj, fun a ha => ?_, hstored.changed.size, fun hmodern => ?_,
      fun hlegacy => ?_, fun n hsize hbytes hindex y hy => ?_⟩
    · by_contra hne
      have hin := hstored.changed.read a hne
      omega
    · refine UInt16.toNat_inj.1 ?_
      rw [hstored.index, hmodern]
      rfl
    · rw [hstored.index, if_pos hlegacy]
      rfl
    · have hcheck : n.state.checkBlock (y.val + 1) = .ok () := by
        have hle : y.val ≤ x.val := hy
        rw [State.checkBlock_eq_ok_iff, hindex, hsize, hstored.changed.size]
        omega
      refine ⟨succeeds_loadRegisters hcheck, fun loaded hload => ?_⟩
      refine ⟨fun k hk => ?_, hload.loaded.rest⟩
      have hkx := Fin.le_trans hk hy
      rw [hload.loaded.block k hk, hindex]
      exact (hbytes k hkx).trans (hstored.read hkx)
  · have hfollowed := hstoring.followed hlegacy
    have hlength := RegisterBlock.length_flatMap_bytes blocks
    obtain ⟨hblock, hchanged, hindex⟩ := hfollowed
    rw [hlength] at hblock hchanged hindex
    refine ⟨hblock, fun a ha => ?_, hchanged.size, hindex⟩
    by_contra hne
    have hin := hchanged.read a hne
    exact ha.elim (Nat.not_lt_of_le hin.1) (Nat.not_le_of_lt hin.2)

/-- Two registers and then one, whose block ends where memory does. The first register is loaded
back over a zero, and the second one stays zero. -/
theorem stored_registers_load_legacy : ∃ m stored m' n loaded : Machine,
    m.state.legacy = true ∧ m.state.index = 0x208 ∧ m.state.memory.size = 0x20B ∧
    m.Performs (.storeRegisters 1) stored ∧ stored.state.memory.read 0x209 = 2 ∧
    stored.state.index.toNat = 0x20A ∧
    (∃ registers, Storing [⟨1, m.state.registers⟩, ⟨0, registers⟩] m m') ∧
    m'.state.memory.slice 0x208 3 = [1, 2, 0x42] ∧ m'.state.index.toNat = 0x20B ∧
    n = { m' with state := { m'.state with registers := .replicate 16 0, index := 0x208 } } ∧
    n.Performs (.loadRegisters 0) loaded ∧ loaded.state.register 0 = 1 ∧
    loaded.state.register 1 = 0 := by
  let larger : Settings := { Settings.smallest with memorySize := 0x20B, legacyMode := true }
  let built : State :=
    .holding larger 0x200 [0xF1, 0x55, 0x60, 0x42, 0xF0, 0x55, 0xF0, 0x65]
  let m : Machine :=
    ⟨{ (built.setRegister 0 1).setRegister 1 2 with index := 0x208 }, .ofSeed 0, none⟩
  obtain ⟨stored, hstored⟩ : ∃ stored, (m.cycle 0 0).machine = stored := ⟨_, rfl⟩
  obtain ⟨set, hset⟩ : ∃ set, (stored.cycle 0 0).machine = set := ⟨_, rfl⟩
  obtain ⟨m', hm'⟩ : ∃ m', (set.cycle 0 0).machine = m' := ⟨_, rfl⟩
  obtain ⟨hsize, hstoreOp, hstoreOk⟩ : m.state.memory.size = 0x20B ∧
      m.state.operation? = some (.storeRegisters 1) ∧ (m.cycle 0 0).fault = none := by
    decide +kernel
  obtain ⟨hop, hok, hlastOp, hlastOk, hregister⟩ :
      stored.state.operation? = some (.setByte 0 0x42) ∧ (stored.cycle 0 0).fault = none ∧
      set.state.operation? = some (.storeRegisters 0) ∧ (set.cycle 0 0).fault = none ∧
      (set.state.blockTo 0).bytes = [0x42] := by
    rw [← hset, ← hstored]
    decide +kernel
  have hstore : m.Performs (.storeRegisters 1) stored := hstored ▸ .cycle hstoreOp hstoreOk
  have hlast : set.Performs (.storeRegisters 0) m' := hm' ▸ .cycle hlastOp hlastOk
  have hbetween : Storing [set.state.blockTo 0] set m' := .store hlast (.done m')
  rw [← hset] at hbetween
  have hstoring := Storing.store hstore (hbetween.cycle hop hok rfl rfl)
  rw [hset] at hstoring
  obtain ⟨hkept, hsame, hloadOp⟩ :
      (∀ j ≤ (1 : Nibble),
        m'.state.memory.read (0x208 + j.val) = stored.state.memory.read (0x208 + j.val)) ∧
      m'.state.memory.size = stored.state.memory.size ∧
      m'.state.operation? = some (.loadRegisters 0) := by
    rw [← hm', ← hset, ← hstored]
    decide +kernel
  let n : Machine :=
    { m' with state := { m'.state with registers := .replicate 16 0, index := 0x208 } }
  obtain ⟨hone, hmany⟩ := stored_registers_load m
  obtain ⟨hbytes, -, -, -, hmoved, hback⟩ := hone 1 stored hstore
  obtain ⟨hblocks, -, -, hend⟩ := hmany rfl _ m' hstoring
  obtain ⟨hsucceeds, hloaded⟩ := hback n hsame hkept rfl 0 (by decide)
  have hload : n.Performs (.loadRegisters 0) (n.cycle 0 0).machine :=
    .cycle hloadOp (hsucceeds.2 0 0 hloadOp)
  obtain ⟨hfirst, hrest⟩ := hloaded _ hload
  have hbehind : stored.state.memory.read 0x209 = 2 := hbytes 1 (by decide)
  have hthree : m'.state.memory.slice 0x208 3 = [1, 2, 0x42] := by
    rw [List.flatMap_cons, List.flatMap_singleton, hregister] at hblocks
    exact hblocks
  exact ⟨m, stored, m', n, _, rfl, rfl, hsize, hstore, hbehind, hmoved rfl,
    ⟨_, hstoring⟩, hthree, hend, rfl, hload, hfirst 0 (by decide), hrest 1 (by decide)⟩

end Machine

end Chip8
