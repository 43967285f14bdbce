/-!
# The call stack

Return addresses lie in slots of a fixed number; `depth` of them are in use. A slot keeps
its address after the return, and shows it where memory is shown with the stack in it.
`CallStack.toList` is the stack without what is left over in its slots.
-/

namespace Chip8

/-- Return addresses. -/
structure CallStack where
  /-- The slots, those in use first. -/
  slots : Array UInt16
  /-- The number of slots in use. -/
  depth : Nat
  deriving DecidableEq, Repr

namespace CallStack

/-- A stack with room for `capacity` addresses and none on it. -/
def empty (capacity : Nat) : CallStack := ⟨Array.replicate capacity 0, 0⟩

/-- The number of slots. -/
def capacity (s : CallStack) : Nat := s.slots.size

/-- The addresses on the stack, oldest first. -/
def toList (s : CallStack) : List UInt16 := s.slots.toList.take s.depth

/-- The address in a slot, if the slot is in use. -/
def get? (s : CallStack) (slot : Nat) : Option UInt16 :=
  if slot < s.depth then s.slots[slot]? else none

/-- The index of the slot that was used last, -1 if none is in use. -/
def pointer (s : CallStack) : Int := (s.depth : Int) - 1

/-- The stack with an address on top, if there is room. -/
def push? (s : CallStack) (address : UInt16) : Option CallStack :=
  if s.depth < s.capacity then some ⟨s.slots.setIfInBounds s.depth address, s.depth + 1⟩
  else none

/-- The address on top, and the stack without it. -/
def pop? (s : CallStack) : Option (UInt16 × CallStack) :=
  if s.depth = 0 then none
  else some (s.slots.getD (s.depth - 1) 0, { s with depth := s.depth - 1 })

@[simp] theorem capacity_empty (n : Nat) : (empty n).capacity = n := by simp [empty, capacity]

@[simp] theorem toList_empty (n : Nat) : (empty n).toList = [] := by simp [empty, toList]

theorem get?_eq_getElem?_toList (s : CallStack) (slot : Nat) : s.get? slot = s.toList[slot]? := by
  simp [get?, toList, List.getElem?_take]

theorem toList_push {s t : CallStack} {a : UInt16} (h : s.push? a = some t) :
    t.toList = s.toList ++ [a] := by
  unfold push? at h
  split at h
  · rename_i hd
    simp only [capacity] at hd
    cases h
    simp only [toList, Array.toList_setIfInBounds]
    rw [List.take_add_one, List.take_set_of_le (Nat.le_refl _)]
    simp [hd]
  · cases h

theorem capacity_push {s t : CallStack} {a : UInt16} (h : s.push? a = some t) :
    t.capacity = s.capacity := by
  unfold push? at h
  split at h
  · cases h; simp [capacity]
  · cases h

theorem capacity_pop {s t : CallStack} {a : UInt16} (h : s.pop? = some (a, t)) :
    t.capacity = s.capacity := by
  unfold pop? at h
  split at h
  · cases h
  · cases h; rfl

theorem depth_push_le {s t : CallStack} {a : UInt16} (h : s.push? a = some t) :
    t.depth ≤ t.slots.size := by
  unfold push? at h
  split at h
  · rename_i hd
    simp only [capacity] at hd
    cases h
    simp only [Array.size_setIfInBounds]
    omega
  · cases h

theorem depth_pop_le {s t : CallStack} {a : UInt16} (hs : s.depth ≤ s.slots.size)
    (h : s.pop? = some (a, t)) : t.depth ≤ t.slots.size := by
  unfold pop? at h
  split at h
  · cases h
  · cases h
    simp only
    omega

end CallStack

end Chip8
