import Chip8.Machine.CallStack
import Mathlib.Data.List.TakeDrop

/-!
# The call stack as a list

What a machine does with its call stack depends on the list of addresses on it and on its
capacity alone. A push fails exactly where the list fills the capacity and appends to it
otherwise; a pop fails exactly on the empty list and takes its last entry off otherwise.

Slots that are not in use keep what was left in them. Stacks that differ there only are `Alike`,
and stay so.
-/

namespace Chip8

namespace CallStack

variable {s t u : CallStack} {a : UInt16}

/-! ## One stack -/

theorem length_toList (hs : s.depth ≤ s.slots.size) : s.toList.length = s.depth := by
  rw [toList, List.length_take, Array.length_toList]
  exact Nat.min_eq_left hs

theorem push?_eq_none_iff : s.push? a = none ↔ s.capacity ≤ s.depth := by
  unfold push?
  split_ifs with h
  · simp [h]
  · simp [Nat.le_of_not_lt h]

theorem pop?_eq_none_iff : s.pop? = none ↔ s.depth = 0 := by
  unfold pop?
  split_ifs with h <;> simp [h]

/-- A push fails exactly where the list fills the capacity. -/
theorem push?_eq_none_iff_length (hs : s.depth ≤ s.slots.size) :
    s.push? a = none ↔ s.toList.length = s.capacity := by
  rw [push?_eq_none_iff, length_toList hs]
  exact ⟨fun h => Nat.le_antisymm hs h, fun h => Nat.le_of_eq h.symm⟩

/-- A pop fails exactly on the empty list. -/
theorem pop?_eq_none_iff_toList (hs : s.depth ≤ s.slots.size) :
    s.pop? = none ↔ s.toList = [] := by
  rw [pop?_eq_none_iff, ← List.length_eq_zero_iff, length_toList hs]

/-- A pop takes the last entry off the list. -/
theorem toList_pop (hs : s.depth ≤ s.slots.size) (h : s.pop? = some (a, t)) :
    s.toList = t.toList ++ [a] := by
  unfold pop? at h
  split_ifs at h with h0
  obtain ⟨rfl, rfl⟩ := Prod.mk.inj (Option.some.inj h)
  have hlt : s.depth - 1 < s.slots.toList.length := by
    rw [Array.length_toList]
    omega
  have htop : s.slots.getD (s.depth - 1) 0 = s.slots.toList[s.depth - 1] := by
    simp [Array.getD_eq_getD_getElem?, show s.depth - 1 < s.slots.size by omega]
  simp only [toList]
  rw [htop, List.take_append_getElem hlt, Nat.sub_add_cancel (Nat.pos_of_ne_zero h0)]

/-! ## Two stacks -/

/-- Two stacks with the same addresses on them and none on a slot that is not there, whatever is
in the slots that are not in use. -/
structure Alike (s t : CallStack) : Prop where
  left : s.depth ≤ s.slots.size
  right : t.depth ≤ t.slots.size
  toList : t.toList = s.toList

namespace Alike

theorem depth (h : s.Alike t) : t.depth = s.depth := by
  rw [← length_toList h.right, h.toList, length_toList h.left]

/-- What fits the first stack fits the second if that is no smaller. -/
theorem push (h : s.Alike t) (hcapacity : s.capacity ≤ t.capacity)
    (hpush : s.push? a = some u) : ∃ v, t.push? a = some v ∧ u.Alike v := by
  cases hpush' : t.push? a with
  | none =>
    have hfull : s.push? a = none := by
      rw [push?_eq_none_iff, ← h.depth]
      exact Nat.le_trans hcapacity (push?_eq_none_iff.1 hpush')
    rw [hfull] at hpush
    cases hpush
  | some v =>
    refine ⟨v, rfl, depth_push_le hpush, depth_push_le hpush', ?_⟩
    rw [toList_push hpush', toList_push hpush, h.toList]

/-- Both stacks have the same address on top. -/
theorem pop (h : s.Alike t) (hpop : s.pop? = some (a, u)) :
    ∃ v, t.pop? = some (a, v) ∧ u.Alike v := by
  have hlist := toList_pop h.left hpop
  cases hpop' : t.pop? with
  | none =>
    rw [pop?_eq_none_iff_toList h.right, h.toList, hlist] at hpop'
    exact absurd hpop' (List.append_ne_nil_of_right_ne_nil _ (List.cons_ne_nil a []))
  | some top =>
    obtain ⟨b, v⟩ := top
    have hlist' := toList_pop h.right hpop'
    rw [h.toList, hlist] at hlist'
    obtain ⟨hrest, hlast⟩ := List.append_inj' hlist' rfl
    obtain rfl : a = b := List.singleton_inj.1 hlast
    exact ⟨v, rfl, depth_pop_le h.left hpop, depth_pop_le h.right hpop', hrest.symm⟩

end Alike

end CallStack

end Chip8
