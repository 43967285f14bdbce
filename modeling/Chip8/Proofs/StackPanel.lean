import Chip8.Proofs.Nesting
import Chip8.Proofs.Panels
import Mathlib.Data.List.GetD

/-!
# The call stack on the terminal

A slot of the call stack is shown in the row below the one that has its number, and the rows of a
terminal are counted in sixteen bits. So the first `0xFFFF` slots have rows of their own, and are
shown there whatever the terminal showed before (`shows_drawStatus`). The sum that is the row of the
next slot does not fit its word, and the drawing stops without any command for this slot and those
behind it (`leaves_drawStatus`).

`Machine.serve_shows_stack` : the stack is shown slot by slot below its title, and the drawing goes
on to its end, exactly for the settings with at most `0xFFFF` slots.
-/

namespace Chip8

namespace Terminal

variable {s : State} {slot n : Nat}

/-! ## One slot -/

/-- The characters that stand for a slot : the address on it in hex, or blanks if there is none. -/
def slotCells (stack : CallStack) (slot : Nat) : List Char :=
  match stack.toList[slot]? with
  | some address => Numeral.padded 16 4 address.toNat
  | none => List.replicate 4 ' '

/-- The grid shows a slot at the beginning of a row. -/
def Grid.ShowsSlot (g : Grid) (stack : CallStack) (slot row : Nat) : Prop :=
  (List.range 4).map (g.cell · row) = slotCells stack slot

theorem toList_slotText (s : State) (slot : Nat) :
    (slotText s slot).toList = slotCells s.stack slot := by
  rw [slotText, slotCells, CallStack.get?_eq_getElem?_toList]
  cases s.stack.toList[slot]? with
  | none => rfl
  | some address => exact String.toList_ofList

theorem length_slotCells (s : State) (slot : Nat) : (slotCells s.stack slot).length = 4 := by
  rw [← toList_slotText, String.length_toList, length_slotText]

theorem slotCells_of_length_le {stack : CallStack} (h : stack.toList.length ≤ slot) :
    slotCells stack slot = [' ', ' ', ' ', ' '] := by
  rw [slotCells, List.getElem?_eq_none h]
  rfl

theorem toNat_slotRow (hslot : slot < 0xFFFF) : (UInt16.ofNat (slot + 1)).toNat = slot + 1 :=
  Nat.mod_eq_of_lt (by omega)

theorem shows_slotCommands (g : Grid) (s : State) (hslot : slot < 0xFFFF) :
    (g.applyAll (slotCommands s slot)).ShowsSlot s.stack slot (slot + 1) := by
  have hlength := length_slotCells s slot
  refine List.ext_getElem (by simp [hlength]) fun x hx hcells => ?_
  rw [List.getElem_map, List.getElem_range, slotCommands, Grid.cell_written, toNat_slotRow hslot,
    toList_slotText, if_pos ⟨Nat.zero_le x, rfl⟩]
  exact List.getD_eq_getElem _ _ hcells

theorem leaves_slotCommands (s : State) (hslot : slot < 0xFFFF) :
    Grid.Leaves (fun _ y => y ≠ slot + 1) (slotCommands s slot) :=
  .written fun _ _ hy => .inl ((toNat_slotRow hslot).symm ▸ hy)

/-! ## All slots -/

/-- Each slot that is drawn is shown, since no other one has its row. -/
theorem shows_slots (g : Grid) (s : State) (hslot : slot < n) (hn : n ≤ 0xFFFF) :
    (g.applyAll ((List.range n).flatMap (slotCommands s))).ShowsSlot s.stack slot (slot + 1) := by
  have hlater (j : Nat) (hj : slot < j) (hj' : j < n) :
      Grid.Leaves (fun _ y => y = slot + 1) (slotCommands s j) :=
    (leaves_slotCommands s (by omega)).mono fun _ y hy => by omega
  have hcell (x : Nat) :=
    Grid.Leaves.cell_flatMap_range hslot hlater g (x := x) (y := slot + 1) rfl
  simp only [Grid.ShowsSlot, hcell]
  exact shows_slotCommands _ s (by omega)

/-- Nothing is drawn below the row of the last slot that has one. -/
theorem leaves_drawStatus (s : State) :
    Grid.Leaves (fun _ y => 0x10000 ≤ y) (drawStatus s).commands := by
  refine (leaves_outside_statusArea s).mono fun x y hy => ?_
  unfold statusArea
  omega

theorem stop_drawStatus (s : State) :
    (drawStatus s).stop = if s.stack.capacity ≤ 0xFFFF then none else some .sum := by
  rw [drawStatus, statusPanel_eq]

theorem shows_drawStatus (g : Grid) (s : State) (hslot : slot < s.stack.capacity)
    (hrow : slot < 0xFFFF) :
    (g.applyAll (drawStatus s).commands).ShowsSlot s.stack slot (slot + 1) := by
  rw [drawStatus, statusPanel_eq, Grid.applyAll_append]
  exact shows_slots _ s (by omega) (by omega)

/-- No command is sent for the slots without a row, so that each grid keeps what it has where they
would be. -/
theorem exists_not_shows (s : State) (hrow : 0xFFFF ≤ slot) :
    ∃ g : Grid, ¬(g.applyAll (drawStatus s).commands).ShowsSlot s.stack slot (slot + 1) := by
  by_contra hshows
  rw [not_exists] at hshows
  have hcell (c : Char) : c = (slotCells s.stack slot).headD ' ' := by
    rw [← not_not.1 (hshows ⟨fun _ _ => c, 0, 0⟩)]
    exact (leaves_drawStatus s ⟨fun _ _ => c, 0, 0⟩ 0 (slot + 1) (by omega)).symm
  exact absurd ((hcell 'a').trans (hcell 'b').symm) (by decide)

/-- The slots are shown one below the other, whatever the terminal showed before, exactly if all of
them have a row. -/
theorem shows_all_iff (s : State) :
    (∀ (g : Grid), ∀ slot < s.stack.capacity,
        (g.applyAll (drawStatus s).commands).ShowsSlot s.stack slot (slot + 1)) ↔
      s.stack.capacity ≤ 0xFFFF := by
  constructor
  · intro hshows
    by_contra hover
    obtain ⟨g, hg⟩ := exists_not_shows s (Nat.le_refl 0xFFFF)
    exact hg (hshows g 0xFFFF (Nat.not_le.1 hover))
  · exact fun hfits g slot hslot => shows_drawStatus g s hslot (by omega)

end Terminal

namespace Settings

/-- The settings of the smallest machine, but with a number of slots. -/
def slotted (slots : UInt64) : Settings := { smallest with stackSize := slots }

theorem valid_slotted {slots : UInt64} (h : slots ≠ 0) : (slotted slots).Valid := by
  obtain ⟨hwidth, hheight, hwidth', hheight', hmemory, hmemory', -⟩ :=
    (valid_iff _).1 valid_smallest
  exact (valid_iff _).2 ⟨hwidth, hheight, hwidth', hheight', hmemory, hmemory', h, nofun⟩

end Settings

namespace Machine

open Terminal

/-- A machine with an empty stack, after a program whose first instruction is a call. -/
theorem callStack_serve_call {m : Machine} (hm : m.state.WellFormed) (hempty : m.callStack = [])
    {program : List UInt8} {target : UInt16} (i : Input)
    (hop : (m.answer (.load program)).machine.state.operation? = some (.call target)) :
    (m.serve [.load program, .cycle i]).callStack =
      [(m.answer (.load program)).machine.state.pc + 2] := by
  have hshape := sameShape_answer m (.load program)
  have hloaded := hm.of_sameShape hshape
  have hstack : (m.answer (.load program)).machine.state.stack = m.state.stack :=
    stack_answer nofun nofun
  have hempty' : (m.answer (.load program)).machine.callStack = [] := by
    rw [callStack, hstack]
    exact hempty
  rw [serve_cons]
  generalize (m.answer (.load program)).machine = loaded at *
  rcases cycle_of_call hloaded hop i with hfull | hpushed
  · obtain ⟨-, -, -, -, -, -, hslots, -⟩ := loaded.state.settings.valid_iff.1 hloaded.valid
    have hnone : loaded.state.settings.stackSize.toNat = 0 := by
      rw [← hloaded.slots, ← CallStack.capacity, ← hfull.1, hempty']
      rfl
    exact absurd (UInt64.toNat_inj.1 hnone) hslots
  · rw [serve_cons, serve_nil]
    exact hpushed.2.2.1.trans (by rw [hempty', List.nil_append])

/-- What the smallest machine has on its stack after its first call. -/
theorem stack_serve_slotted {slots : UInt64} (h : slots ≠ 0) {loaded : Machine}
    (hloaded : (answer ⟨.initial (.slotted slots), .ofSeed 8, none⟩
      (.load [0x22, 0x02])).machine = loaded)
    (hop : loaded.state.operation? = some (.call 0x202)) (hpc : loaded.state.pc = 0x200) :
    let s := (serve ⟨.initial (.slotted slots), .ofSeed 8, none⟩
      [.load [0x22, 0x02], .cycle ⟨0, 0⟩]).state
    s.stack.toList = [0x202] ∧ s.stack.capacity = slots.toNat ∧
      slotCells s.stack 0 = ['0', '2', '0', '2'] := by
  have hm : State.WellFormed (Machine.mk (.initial (.slotted slots)) (.ofSeed 8) none).state :=
    .initial (Settings.valid_slotted h)
  have hempty : callStack ⟨.initial (.slotted slots), .ofSeed 8, none⟩ = [] :=
    CallStack.toList_empty _
  subst hloaded
  have hstack := callStack_serve_call hm hempty ⟨0, 0⟩ hop
  rw [hpc] at hstack
  have hcells : Numeral.padded 16 4 0x202 = ['0', '2', '0', '2'] := by decide +kernel
  refine ⟨hstack, (sameShape_serve _ _).slots.trans hm.slots, ?_⟩
  rw [callStack] at hstack
  rw [slotCells, hstack]
  exact hcells

/-- A machine that is built from valid settings, after any calls of the host : its call stack has as
many slots as the settings say, those in use first. Drawing the status shows each of the first
`0xFFFF` slots in the row below its number, on a terminal that showed anything before. If there are
more slots the drawing stops there, as the next row does not fit its word : so it is done without a
stop, and shows all slots one below the other, exactly if the settings have at most `0xFFFF` of
them. -/
theorem serve_shows_stack {settings : Settings} (h : settings.Valid) (random : Random) :
    ∃ built, Machine.new settings random = .ok built ∧ ∀ calls : List Call,
      let s := (built.serve calls).state
      s.stack.capacity = settings.stackSize.toNat ∧ s.stack.toList.length = s.stack.depth ∧
      s.stack.depth ≤ s.stack.capacity ∧
      (drawStatus s).stop = (if settings.stackSize.toNat ≤ 0xFFFF then none else some .sum) ∧
      (∀ (g : Grid), ∀ slot < s.stack.capacity, slot < 0xFFFF →
        (g.applyAll (drawStatus s).commands).ShowsSlot s.stack slot (slot + 1)) ∧
      ((∀ (g : Grid), ∀ slot < s.stack.capacity,
          (g.applyAll (drawStatus s).commands).ShowsSlot s.stack slot (slot + 1)) ↔
        settings.stackSize.toNat ≤ 0xFFFF) := by
  refine ⟨_, new_eq_ok h random, fun calls => ?_⟩
  have hm : State.WellFormed (Machine.mk (.initial settings) random none).state := .initial h
  have hshape := sameShape_serve ⟨.initial settings, random, none⟩ calls
  have hserved := hm.of_sameShape hshape
  generalize (serve ⟨.initial settings, random, none⟩ calls).state = s at *
  have hcapacity : s.stack.capacity = settings.stackSize.toNat := hshape.slots.trans hm.slots
  exact ⟨hcapacity, CallStack.length_toList hserved.depth, hserved.depth,
    hcapacity ▸ stop_drawStatus s, fun g slot => shows_drawStatus g s,
    hcapacity ▸ shows_all_iff s⟩

/-- With two slots, one of them in use after the first call, both are shown. -/
theorem serve_shows_stack_two : ∃ built, Machine.new (.slotted 2) (.ofSeed 8) = .ok built ∧
    let s := (built.serve [.load [0x22, 0x02], .cycle ⟨0, 0⟩]).state
    s.stack.toList = [0x202] ∧ s.stack.capacity = 2 ∧ (drawStatus s).stop = none ∧
    ∀ g : Grid,
      let shown := g.applyAll (drawStatus s).commands
      (List.range 4).map (shown.cell · 1) = ['0', '2', '0', '2'] ∧
        (List.range 4).map (shown.cell · 2) = [' ', ' ', ' ', ' '] := by
  have hslots : (2 : UInt64) ≠ 0 := by decide
  obtain ⟨built, hbuilt, hserve⟩ := serve_shows_stack (Settings.valid_slotted hslots) (.ofSeed 8)
  refine ⟨built, hbuilt, ?_⟩
  obtain rfl := Except.ok.inj ((new_eq_ok (Settings.valid_slotted hslots) _).symm.trans hbuilt)
  obtain ⟨hlist, hcapacity, hfirst⟩ := stack_serve_slotted hslots rfl (by decide +kernel)
    (by decide +kernel)
  obtain ⟨-, -, -, hstop, -, hiff⟩ := hserve [.load [0x22, 0x02], .cycle ⟨0, 0⟩]
  have hshows := hiff.2 (by decide)
  generalize (serve _ [.load [0x22, 0x02], .cycle ⟨0, 0⟩]).state = s at *
  have hsecond : slotCells s.stack 1 = _ := slotCells_of_length_le (by rw [hlist]; decide)
  exact ⟨hlist, hcapacity, hstop, fun g =>
    ⟨(hshows g 0 (by rw [hcapacity]; decide)).trans hfirst,
      (hshows g 1 (by rw [hcapacity]; decide)).trans hsecond⟩⟩

/-- With two slots more than there are rows, the drawing stops, and neither of the two is shown. -/
theorem serve_shows_stack_stopped :
    (Settings.slotted 65537).Valid ∧ ∃ built, Machine.new (.slotted 65537) (.ofSeed 8) = .ok built ∧
      let s := (built.serve [.load [0x22, 0x02], .cycle ⟨0, 0⟩]).state
      s.stack.toList = [0x202] ∧ s.stack.capacity = 65537 ∧ (drawStatus s).stop = some .sum ∧
      ∀ slot, 65535 ≤ slot → slot < s.stack.capacity →
        ∃ g : Grid, ¬(g.applyAll (drawStatus s).commands).ShowsSlot s.stack slot (slot + 1) := by
  have hslots : (65537 : UInt64) ≠ 0 := by decide
  have hword : (65537 : UInt64).toNat = 65537 := by decide
  refine ⟨Settings.valid_slotted hslots, _, new_eq_ok (Settings.valid_slotted hslots) _, ?_⟩
  obtain ⟨hlist, hcapacity, -⟩ := stack_serve_slotted hslots rfl (by decide +kernel)
    (by decide +kernel)
  rw [hword] at hcapacity
  generalize (serve _ [.load [0x22, 0x02], .cycle ⟨0, 0⟩]).state = s at *
  have hstop : (drawStatus s).stop = some .sum := by
    rw [stop_drawStatus, hcapacity]
    rfl
  exact ⟨hlist, hcapacity, hstop, fun slot hrow _ => exists_not_shows s hrow⟩

end Machine

end Chip8
