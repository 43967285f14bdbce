/-!
# Memory

Memory is an array of bytes. Reading beyond its end gives zero and writing there does
nothing, so that `Memory.read` and `Memory.write` are total; a machine checks its bounds
before it touches memory.
-/

namespace Chip8

/-- The bytes of a machine, by address. -/
abbrev Memory := Array UInt8

namespace Memory

/-- The byte at an address. -/
def read (m : Memory) (address : Nat) : UInt8 := m.getD address 0

/-- The bytes from an address on. -/
def slice (m : Memory) (address length : Nat) : List UInt8 :=
  (List.range length).map fun k => m.read (address + k)

/-- Memory with bytes written from an address on. -/
def write (m : Memory) (address : Nat) : List UInt8 → Memory
  | [] => m
  | b :: bs => write (m.setIfInBounds address b) (address + 1) bs

@[simp] theorem length_slice (m : Memory) (address length : Nat) :
    (m.slice address length).length = length := by simp [slice]

theorem getElem_slice (m : Memory) (address length k : Nat)
    (h : k < (m.slice address length).length) :
    (m.slice address length)[k] = m.read (address + k) := by simp [slice]

@[simp] theorem size_write (m : Memory) (address : Nat) (bs : List UInt8) :
    (m.write address bs).size = m.size := by
  induction bs generalizing m address with
  | nil => rfl
  | cons b bs ih => rw [write, ih, Array.size_setIfInBounds]

/-- Bytes that are written after each other can be written at once. -/
theorem write_append (m : Memory) (address : Nat) (bs cs : List UInt8) :
    m.write address (bs ++ cs) = (m.write address bs).write (address + bs.length) cs := by
  induction bs generalizing m address with
  | nil => rfl
  | cons b bs ih =>
    rw [List.cons_append, write, ih, write, List.length_cons, Nat.add_assoc, Nat.add_comm 1]

theorem read_set (m : Memory) (a b : Nat) (v : UInt8) :
    Memory.read (m.setIfInBounds a v) b = if a = b ∧ b < m.size then v else m.read b := by
  simp only [read, Array.getD_eq_getD_getElem?, Array.getElem?_setIfInBounds]
  by_cases h : a = b
  · subst h; by_cases ha : a < m.size <;> simp [ha]
  · simp [h]

/-- An address outside the block that is written keeps its byte. -/
theorem read_write_of_not_mem (m : Memory) (a b : Nat) (bs : List UInt8)
    (h : b < a ∨ a + bs.length ≤ b) : (m.write a bs).read b = m.read b := by
  induction bs generalizing m a with
  | nil => rfl
  | cons v bs ih =>
    simp only [List.length_cons] at h
    rw [write, ih _ _ (by omega), read_set, if_neg (by omega)]

/-- An address inside the block that is written has the byte written there. -/
theorem read_write_of_mem (m : Memory) (a : Nat) (bs : List UInt8) (k : Nat)
    (hk : k < bs.length) (h : a + bs.length ≤ m.size) :
    (m.write a bs).read (a + k) = bs[k] := by
  induction bs generalizing m a k with
  | nil => simp at hk
  | cons v bs ih =>
    simp only [List.length_cons] at h hk
    rw [write]
    cases k with
    | zero =>
      rw [read_write_of_not_mem _ _ _ _ (by omega), read_set, if_pos (by omega)]
      rfl
    | succ k =>
      rw [show a + (k + 1) = a + 1 + k by omega,
        ih _ _ k (by omega) (by rw [Array.size_setIfInBounds]; omega)]
      rfl

/-- A block that is written reads back. -/
theorem slice_write (m : Memory) (a : Nat) (bs : List UInt8) (h : a + bs.length ≤ m.size) :
    (m.write a bs).slice a bs.length = bs := by
  refine List.ext_getElem (length_slice ..) fun k hslice hk => ?_
  rw [getElem_slice _ _ _ _ hslice]
  exact read_write_of_mem m a bs k hk h

/-- Two blocks behind each other are one. -/
theorem slice_add (m : Memory) (a n k : Nat) :
    m.slice a (n + k) = m.slice a n ++ m.slice (a + n) k := by
  simp only [slice, List.range_add, List.map_append, List.map_map, Function.comp_def,
    Nat.add_assoc]

end Memory

end Chip8
