import Chip8.Proofs.Host
import Chip8.Proofs.Instruction

/-!
# Reserved memory

A machine keeps the font in the part of memory below `programStart`, and zeros behind it. Just two
operations write to memory, as many bytes as `Operation.stored` says, from the index register on;
the check of their block keeps them off the reserved part, however the index register came by its
value (`Machine.memory_execute`). A program that is loaded goes behind that part too.

What a cycle may change is thus known before it (`State.stores`), and no more than that changes
(`Machine.memory_cycle`). `Machine.serve_keeps_font` : after any calls of the host the reserved part
is what it was when the machine was built.
-/

namespace Chip8

/-! ## Memory that changes in an area -/

/-- Memory of the same size that differs in an area at most. -/
structure Memory.ChangedIn (area : Nat → Prop) (m m' : Memory) : Prop where
  size : m'.size = m.size
  read : ∀ a, m'.read a ≠ m.read a → area a

namespace Memory.ChangedIn

variable {area area' : Nat → Prop} {m m' m'' : Memory}

theorem refl (m : Memory) : ChangedIn area m m := ⟨rfl, fun _ h => absurd rfl h⟩

theorem of_eq (h : m' = m) : ChangedIn area m m' := by
  rw [h]
  exact refl m

theorem mono (h : ChangedIn area m m') (harea : ∀ a, area a → area' a) : ChangedIn area' m m' :=
  ⟨h.size, fun a ha => harea a (h.read a ha)⟩

theorem trans (h : ChangedIn area m m') (h' : ChangedIn area m' m'') : ChangedIn area m m'' := by
  refine ⟨h'.size.trans h.size, fun a ha => ?_⟩
  by_cases hsame : m'.read a = m.read a
  · rw [← hsame] at ha
    exact h'.read a ha
  · exact h.read a hsame

/-- A block that is written changes no more than its own bytes. -/
theorem write (m : Memory) (start : Nat) (bytes : List UInt8) :
    ChangedIn (fun a => start ≤ a ∧ a < start + bytes.length) m (m.write start bytes) := by
  refine ⟨size_write m start bytes, fun a ha => ?_⟩
  by_contra hout
  exact ha (read_write_of_not_mem m start a bytes (by omega))

/-- Bytes that lie outside the area are what they were. -/
theorem slice_eq (h : ChangedIn area m m') {start length : Nat}
    (hout : ∀ a, start ≤ a → a < start + length → ¬area a) :
    m'.slice start length = m.slice start length := by
  refine List.map_congr_left fun k hk => ?_
  have hlt := List.mem_range.1 hk
  by_contra hne
  exact hout (start + k) (by omega) (by omega) (h.read _ hne)

end Memory.ChangedIn

/-! ## What operations store -/

/-- How many bytes an operation writes to memory, from the index register on. -/
def Operation.stored : Operation → Nat
  | .storeDecimal _ => 3
  | .storeRegisters x => x.val + 1
  | _ => 0

/-- An address that the next cycle may write to. -/
def State.stores (s : State) (a : Nat) : Prop :=
  ∃ op, s.operation? = some op ∧ programStart ≤ a ∧ s.index.toNat ≤ a ∧
    a < s.index.toNat + op.stored

theorem Operation.stored_pos {op : Operation} (h : 0 < op.stored) :
    (∃ x, op = .storeDecimal x) ∨ ∃ x, op = .storeRegisters x := by
  cases op with
  | storeDecimal x => exact .inl ⟨x, rfl⟩
  | storeRegisters x => exact .inr ⟨x, rfl⟩
  | _ => exact absurd h (Nat.lt_irrefl 0)

theorem State.programStart_le_of_checkBlock {s : State} {length : Nat}
    (h : s.checkBlock length = .ok ()) : programStart ≤ s.index.toNat :=
  (checkBlock_eq_ok_iff.1 h).1

namespace Machine

variable {m : Machine} {address : UInt16} {op : Operation}

/-- A block that is written changes memory behind the reserved part alone, for its check has been
passed. -/
theorem changedIn_of_checkBlock {s : State} {bytes : List UInt8}
    (h : s.checkBlock bytes.length = .ok ()) :
    Memory.ChangedIn (fun a => programStart ≤ a ∧ s.index.toNat ≤ a ∧
      a < s.index.toNat + bytes.length) s.memory (s.memory.write s.index.toNat bytes) := by
  have hstart := State.programStart_le_of_checkBlock h
  exact (Memory.ChangedIn.write _ _ _).mono fun a ha => ⟨Nat.le_trans hstart ha.1, ha⟩

theorem memory_execute {effect : Effect} (h : m.execute address op = .ok effect) :
    Memory.ChangedIn (fun a => programStart ≤ a ∧ m.state.index.toNat ≤ a ∧
      a < m.state.index.toNat + op.stored) m.state.memory effect.machine.state.memory := by
  cases op <;> simp only [execute, State.skipIf_eq] at h
  case storeDecimal x =>
    split at h
    · cases h
    · rename_i hcheck
      have hdigits : m.state.checkBlock (decimalDigits (m.state.register x)).length = .ok () :=
        hcheck
      cases h
      exact changedIn_of_checkBlock hdigits
  case storeRegisters x =>
    split at h
    · cases h
    · rename_i hcheck
      have hlength : (m.state.registers.toList.take (x.val + 1)).length = x.val + 1 := by
        simp only [List.length_take, Vector.length_toList]
        omega
      rw [← hlength] at hcheck
      cases h
      have hchanged := changedIn_of_checkBlock hcheck
      rwa [hlength] at hchanged
  case draw =>
    split at h
    · cases h
    · rename_i hdraw
      have hmemory := congrArg State.memory (State.eq_of_drawSprite hdraw)
      cases h
      exact .of_eq hmemory
  case ret | call | loadRegisters =>
    split at h <;> cases h
    exact .refl _
  case raw => cases h
  all_goals
    cases h
    exact .refl _

/-! ## Cycles -/

/-- A cycle that executes an operation and does not fail changes what that operation may store;
all others leave memory alone. -/
theorem memory_cycle (m : Machine) (keyboard : UInt16) (now : Nat) :
    (m.cycle keyboard now).machine.state.memory = m.state.memory ∨
      (m.cycle keyboard now).fault = none ∧
        m.state.memory.ChangedIn m.state.stores (m.cycle keyboard now).machine.state.memory := by
  obtain ⟨huntouched, -⟩ | ⟨op, effect, hop, hexecute, hcycle⟩ := cycle_cases m keyboard now
  · exact .inl huntouched.memory
  · rw [hcycle]
    exact .inr ⟨rfl, (memory_execute hexecute).mono fun a ha => ⟨op, hop, ha⟩⟩

/-! ## Calls of the host -/

/-- An address behind the reserved part. -/
def unreserved (a : Nat) : Prop := programStart ≤ a

theorem unreserved_cycle (m : Machine) (keyboard : UInt16) (now : Nat) :
    m.state.memory.ChangedIn unreserved (m.cycle keyboard now).machine.state.memory := by
  obtain hsame | ⟨-, hchanged⟩ := memory_cycle m keyboard now
  · exact .of_eq hsame
  · exact hchanged.mono fun a ⟨_, _, hstart, _⟩ => hstart

theorem memory_load {program : List UInt8} {loaded : Machine} (h : m.load program = .ok loaded) :
    m.state.memory.ChangedIn (fun a => programStart ≤ a ∧ a < programStart + program.length)
      loaded.state.memory := by
  unfold load at h
  split_ifs at h
  cases h
  exact .write _ _ _

theorem unreserved_answer (m : Machine) (call : Call) :
    m.state.memory.ChangedIn unreserved (m.answer call).machine.state.memory := by
  cases call with
  | load program =>
    cases hload : m.load program with
    | error fault =>
      simp only [answer, hload]
      exact .refl _
    | ok loaded =>
      simp only [answer, hload]
      exact (memory_load hload).mono fun a ha => ha.1
  | cycle i => exact unreserved_cycle m _ _
  | run inputs =>
    exact related_run (R := fun m m' => m.state.memory.ChangedIn unreserved m'.state.memory)
      (fun m => .refl m.state.memory) Memory.ChangedIn.trans unreserved_cycle m inputs
  | draw x y rows =>
    cases hdraw : m.state.drawSprite x y rows with
    | error fault =>
      simp only [answer, hdraw]
      exact .refl _
    | ok drawn =>
      have hmemory := congrArg State.memory (State.eq_of_drawSprite hdraw)
      simp only [answer, hdraw]
      exact .of_eq hmemory
  | tick | press | release | clearScreen | reseed => exact .refl _

theorem unreserved_serve (m : Machine) (calls : List Call) :
    m.state.memory.ChangedIn unreserved (m.serve calls).state.memory :=
  related_serve (R := fun m m' => m.state.memory.ChangedIn unreserved m'.state.memory)
    (fun m => .refl m.state.memory) Memory.ChangedIn.trans unreserved_answer m calls

/-- A new machine has the font in the reserved part, and zeros behind it. -/
theorem slice_initial {settings : Settings} (h : settings.Valid) :
    (State.initial settings).memory.slice 0 programStart =
      Font.bytes ++ List.replicate (programStart - Font.bytes.length) 0 := by
  have hfits : Font.bytes.length ≤ programStart := by decide
  have hsize : Font.start + Font.bytes.length ≤
      (Array.replicate settings.memorySize.toNat (0 : UInt8)).size := by
    rw [Array.size_replicate]
    exact Nat.le_trans hfits h.programStart_le
  have hlength : programStart =
      (Font.bytes ++ List.replicate (programStart - Font.bytes.length) (0 : UInt8)).length := by
    rw [List.length_append, List.length_replicate, Nat.add_sub_cancel' hfits]
  have hinitial : (State.initial settings).memory =
      Memory.write (Array.replicate settings.memorySize.toNat 0) Font.start Font.bytes := by
    rw [State.initial]
  refine List.ext_getElem ((Memory.length_slice ..).trans hlength) fun k _ _ => ?_
  simp only [Memory.slice, List.getElem_map, List.getElem_range, Nat.zero_add]
  rcases Nat.lt_or_ge k Font.bytes.length with hglyph | hbehind
  · have haddress : Font.start + k = k := Nat.zero_add k
    rw [List.getElem_append_left hglyph, hinitial,
      ← Memory.read_write_of_mem _ Font.start Font.bytes k hglyph hsize, haddress]
  · have hzero : Memory.read (Array.replicate settings.memorySize.toNat 0) k = 0 := by
      rw [Memory.read, Array.getD_eq_getD_getElem?, Array.getElem?_replicate]
      split_ifs <;> rfl
    have hout : Font.start + Font.bytes.length ≤ k := by rwa [Font.start, Nat.zero_add]
    rw [List.getElem_append_right hbehind, List.getElem_replicate, hinitial,
      Memory.read_write_of_not_mem _ _ _ _ (.inr hout), hzero]

/-- A machine that is built from valid settings has the font at the beginning of its memory and
zeros from there to `programStart`, after any calls of the host. Its memory keeps its size. From
then on a cycle changes no bytes but those that its operation stores : three digits or the
registers up to `VX`, from the index register on. A program that is loaded changes no bytes but
its own. -/
theorem serve_keeps_font {settings : Settings} (h : settings.Valid) (random : Random) :
    ∃ built, Machine.new settings random = .ok built ∧ ∀ calls : List Call,
      let m := built.serve calls
      m.state.memory.size = settings.memorySize.toNat ∧ 0x200 ≤ m.state.memory.size ∧
      m.state.memory.slice 0 0x200 = Font.bytes ++ List.replicate (0x200 - 80) 0 ∧
      (∀ (i : Input) (a : Nat),
        (m.cycle i.keyboard i.now).machine.state.memory.read a ≠ m.state.memory.read a →
          (m.cycle i.keyboard i.now).fault = none ∧ 0x200 ≤ a ∧ m.state.index.toNat ≤ a ∧
          ((∃ x, m.state.operation? = some (.storeDecimal x) ∧ a < m.state.index.toNat + 3) ∨
            ∃ x, m.state.operation? = some (.storeRegisters x) ∧
              a < m.state.index.toNat + x.val + 1)) ∧
      ∀ program loaded, m.load program = .ok loaded → ∀ a,
        loaded.state.memory.read a ≠ m.state.memory.read a →
          0x200 ≤ a ∧ a < 0x200 + program.length := by
  refine ⟨_, new_eq_ok h random, fun calls => ?_⟩
  intro m
  have hserved : (State.initial settings).memory.ChangedIn unreserved m.state.memory :=
    unreserved_serve ⟨.initial settings, random, none⟩ calls
  have hsize : m.state.memory.size = settings.memorySize.toNat :=
    hserved.size.trans (State.WellFormed.initial h).memory
  have hfont : m.state.memory.slice 0 programStart = _ :=
    (hserved.slice_eq fun a _ hlt hin => by unfold unreserved at hin; omega).trans (slice_initial h)
  refine ⟨hsize, hsize ▸ h.programStart_le, hfont, fun i a hne => ?_, fun program loaded hload =>
    (memory_load hload).read⟩
  obtain hsame | ⟨hok, hchanged⟩ := memory_cycle m i.keyboard i.now
  · rw [hsame] at hne
    exact absurd rfl hne
  obtain ⟨op, hop, hstart, hindex, hend⟩ := hchanged.read a hne
  refine ⟨hok, hstart, hindex, ?_⟩
  have hpos : 0 < op.stored := by omega
  rcases Operation.stored_pos hpos with ⟨x, rfl⟩ | ⟨x, rfl⟩
  · exact .inl ⟨x, hop, hend⟩
  · exact .inr ⟨x, hop, hend⟩

/-- Two registers that would go to the font are not stored. One that goes behind the reserved part
is, over the instruction that stores it. -/
theorem serve_keeps_font_storeRegisters : ∃ (built m : Machine) (i : Input),
    Machine.new { Settings.smallest with memorySize := 0x206 } (.ofSeed 0) = .ok built ∧
      built.serve [.load [0xF1, 0x55, 0xA2, 0x05, 0xF0, 0x55], .cycle i, .cycle i] = m ∧
      m.state.memory.slice 0 0x200 = Font.bytes ++ List.replicate (0x200 - 80) 0 ∧
      m.state.memory.read 0x205 = 0x55 ∧
      (m.cycle i.keyboard i.now).machine.state.memory.read 0x205 = 0 ∧
      (m.cycle i.keyboard i.now).fault = none ∧ m.state.index.toNat ≤ 0x205 := by
  have hvalid : Settings.Valid { Settings.smallest with memorySize := 0x206 } := rfl
  let i : Input := ⟨0, 0⟩
  obtain ⟨built, hbuilt, hserve⟩ := serve_keeps_font hvalid (.ofSeed 0)
  obtain rfl := Except.ok.inj ((new_eq_ok hvalid _).symm.trans hbuilt)
  have hserved := hserve [.load [0xF1, 0x55, 0xA2, 0x05, 0xF0, 0x55], .cycle i, .cycle i]
  generalize hm : serve _ _ = m at hserved
  obtain ⟨-, -, hfont, hcycle, -⟩ := hserved
  obtain ⟨hbefore, hafter⟩ : m.state.memory.read 0x205 = 0x55 ∧
      (m.cycle i.keyboard i.now).machine.state.memory.read 0x205 = 0 := by
    rw [← hm]
    decide +kernel
  have hchanged : (m.cycle i.keyboard i.now).machine.state.memory.read 0x205 ≠
      m.state.memory.read 0x205 := by
    rw [hbefore, hafter]
    decide
  obtain ⟨hok, -, hindex, -⟩ := hcycle i 0x205 hchanged
  exact ⟨_, m, i, hbuilt, hm, hfont, hbefore, hafter, hok, hindex⟩

end Machine

end Chip8
