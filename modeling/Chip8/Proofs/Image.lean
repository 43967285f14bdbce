import Chip8.Proofs.InRange
import Chip8.Proofs.Reserved

/-!
# Memory with the stack and the screen in it

In the compact layout a machine can be looked at as the first interpreters laid it out, with the
slots of the stack and the screen in windows of memory. `Machine.serve_image` : whatever a machine
from valid settings has been through, both windows lie in memory and apart from each other, and the
image shows the slots in the one, the screen in the other, and memory where neither of them is.

The windows are written one after the other. The second one leaves the first alone, for validation
keeps the slots before the screen (`State.WellFormed.windows`).
-/

namespace Chip8

/-! ## Words in memory -/

/-- A word is the one of its two bytes. -/
theorem wordOf_wordBytes (w : UInt16) : wordOf (w >>> 8).toUInt8 w.toUInt8 = w := by
  have hlt := w.toNat_lt
  have hhigh : (w >>> 8).toUInt8.toNat = w.toNat / 0x100 := by
    rw [UInt16.toNat_toUInt8, UInt16.toNat_shiftRight, show (8 : UInt16).toNat % 16 = 8 from rfl,
      Nat.shiftRight_eq_div_pow]
    exact Nat.mod_eq_of_lt (by omega)
  have hlow : w.toUInt8.toNat = w.toNat % 0x100 := UInt16.toNat_toUInt8 w
  refine UInt16.toNat_inj.1 ?_
  rw [toNat_wordOf, hhigh, hlow]
  omega

namespace Memory

/-- The words from an address on, the more significant byte of each first. -/
def words (m : Memory) (address count : Nat) : List UInt16 :=
  (List.range count).map fun k =>
    wordOf (m.read (address + 2 * k)) (m.read (address + 2 * k + 1))

theorem words_succ (m : Memory) (address count : Nat) :
    m.words address (count + 1) =
      wordOf (m.read address) (m.read (address + 1)) :: m.words (address + 2) count := by
  simp only [words, List.range_succ_eq_map, List.map_cons, List.map_map, Function.comp_def,
    Nat.mul_zero, Nat.add_zero]
  refine congrArg (_ :: ·) (List.map_congr_left fun k _ => ?_)
  rw [show address + 2 * k.succ = address + 2 + 2 * k by omega]

/-- Fewer words are the first of them. -/
theorem words_take (m : Memory) (address : Nat) {few count : Nat} (h : few ≤ count) :
    m.words address few = (m.words address count).take few := by
  rw [words, words, ← List.map_take, List.take_range, Nat.min_eq_left h]

/-- Where the bytes of words lie behind each other, those are the words. -/
theorem words_of_slice {m : Memory} {a : Nat} {ws : List UInt16}
    (h : m.slice a (2 * ws.length) = ws.flatMap State.wordBytes) : m.words a ws.length = ws := by
  induction ws generalizing a with
  | nil => rfl
  | cons w ws ih =>
    have hsplit : m.slice a (2 * (ws.length + 1)) =
        [m.read a, m.read (a + 1)] ++ m.slice (a + 2) (2 * ws.length) := by
      rw [Nat.mul_succ, Nat.add_comm, slice_add]
      rfl
    rw [List.length_cons, hsplit, List.flatMap_cons] at h
    obtain ⟨hfirst, hrest⟩ := List.append_inj h rfl
    obtain ⟨hhigh, hlow⟩ : m.read a = (w >>> 8).toUInt8 ∧ m.read (a + 1) = w.toUInt8 := by
      simpa [State.wordBytes] using hfirst
    rw [List.length_cons, words_succ, ih hrest, hhigh, hlow, wordOf_wordBytes]

end Memory

/-! ## The windows -/

namespace State

variable {s : State}

theorem length_wordBytes (ws : List UInt16) : (ws.flatMap wordBytes).length = 2 * ws.length := by
  induction ws with
  | nil => rfl
  | cons w ws ih =>
    rw [List.flatMap_cons, List.length_append, ih, List.length_cons, Nat.mul_succ, Nat.add_comm]
    rfl

/-- The slots end before the screen begins, and the screen before memory ends. -/
theorem WellFormed.windows (hs : s.WellFormed) (hc : s.settings.compactLayout = true) :
    stackWindow + 2 * s.stack.slots.size ≤ screenWindow ∧
      screenWindow + s.screen.bytes.size ≤ s.memory.size := by
  obtain ⟨hstack, -, hscreen⟩ := hs.valid.compact hc
  have hroom : stackWindow + 2 * compactStackLimit ≤ screenWindow := by decide
  rw [hs.slots, hs.screen, hs.memory]
  exact ⟨by omega, hscreen⟩

/-- `image` shows the slots of the stack and the screen in their windows, which lie in it and apart
from each other, and memory everywhere else. -/
structure Overlaid (s : State) (image : Memory) : Prop where
  size : image.size = s.memory.size
  slots : image.words stackWindow s.stack.slots.size = s.stack.slots.toList
  screen : image.slice screenWindow s.screen.bytes.size = s.screen.bytes.toList
  apart : stackWindow + 2 * s.stack.slots.size ≤ screenWindow
  fits : screenWindow + s.screen.bytes.size ≤ image.size
  rest : ∀ a, (a < stackWindow ∨ stackWindow + 2 * s.stack.slots.size ≤ a) →
    (a < screenWindow ∨ screenWindow + s.screen.bytes.size ≤ a) →
    image.read a = s.memory.read a

theorem WellFormed.overlaid (hs : s.WellFormed) (hc : s.settings.compactLayout = true) :
    s.Overlaid s.image := by
  obtain ⟨hapart, hfits⟩ := hs.windows hc
  have hlength : (s.stack.slots.toList.flatMap wordBytes).length = 2 * s.stack.slots.size := by
    rw [length_wordBytes, Array.length_toList]
  let stacked := s.memory.write stackWindow (s.stack.slots.toList.flatMap wordBytes)
  have himage : s.image = stacked.write screenWindow s.screen.bytes.toList := if_pos hc
  have hscreen := Memory.ChangedIn.write stacked screenWindow s.screen.bytes.toList
  rw [← himage, Array.length_toList] at hscreen
  have hstack : stacked.slice stackWindow (2 * s.stack.slots.size) = _ :=
    hlength ▸ Memory.slice_write s.memory stackWindow _ (by omega)
  refine ⟨s.size_image, ?_, ?_, hapart, s.size_image.symm ▸ hfits, fun a hstack' hscreen' => ?_⟩
  · rw [← Array.length_toList]
    refine Memory.words_of_slice ?_
    rw [Array.length_toList, hscreen.slice_eq fun a _ hlt hin => by omega, hstack]
  · have hwritten := Memory.slice_write stacked screenWindow s.screen.bytes.toList
      (by rw [Memory.size_write, Array.length_toList]; exact hfits)
    rwa [← himage, Array.length_toList] at hwritten
  · have hread : stacked.read a = s.memory.read a :=
      Memory.read_write_of_not_mem _ _ _ _ (by rwa [hlength])
    rw [← hread, himage]
    exact Memory.read_write_of_not_mem _ _ _ _ (by rwa [Array.length_toList])

/-- The words that are in use are the first of those in the stack window. -/
theorem Overlaid.callStack {image : Memory} (h : s.Overlaid image) (hs : s.WellFormed) :
    image.words stackWindow s.stack.depth = s.stack.toList := by
  rw [image.words_take stackWindow hs.depth, h.slots, CallStack.toList]

end State

namespace Machine

/-- A machine that was built from valid settings, after any calls of its host, and after whatever
else the host has put into its state without resizing a buffer. Its memory can always be looked at
as it was laid out. In the compact layout the image is as large as memory. It has the slots of the
stack as words at `0xEA0`, with the return addresses first, and the pixels at `0xF00`; the two
windows lie in it and apart from each other. All its other bytes are those of memory. In any other
layout the image is memory. -/
theorem serve_image {settings : Settings} (h : settings.Valid) (random : Random) :
    ∃ built, Machine.new settings random = .ok built ∧
      ∀ (calls : List Call) (s : State), (built.serve calls).state.SameShape s →
        ∃ image, s.image? = some image ∧ image.size = s.memory.size ∧
        (settings.compactLayout = true →
          image.words 0xEA0 settings.stackSize.toNat = s.stack.slots.toList ∧
          image.words 0xEA0 s.stack.depth = s.stack.toList ∧
          image.slice 0xF00 settings.screenBytes = s.screen.bytes.toList ∧
          0xEA0 + 2 * settings.stackSize.toNat ≤ 0xF00 ∧
          0xF00 + settings.screenBytes ≤ image.size ∧
          ∀ a, (a < 0xEA0 ∨ 0xEA0 + 2 * settings.stackSize.toNat ≤ a) →
            (a < 0xF00 ∨ 0xF00 + settings.screenBytes ≤ a) → image.read a = s.memory.read a) ∧
        (settings.compactLayout = false → image = s.memory) := by
  obtain ⟨built, hnew, hbuilt, hsettings⟩ := exists_new_eq_ok h random
  refine ⟨built, hnew, fun calls s hshape => ?_⟩
  have hserved := (sameShape_serve built calls).trans hshape
  have hs := hbuilt.of_sameShape hserved
  have hset : s.settings = settings := hserved.settings.trans hsettings
  refine ⟨s.image, hs.image?_eq, s.size_image, fun hc => ?_, fun hc => ?_⟩
  · have himage := hs.overlaid (hset ▸ hc)
    have hcalls := himage.callStack hs
    obtain ⟨-, hslots, hscreen, hapart, hfits, hrest⟩ := himage
    rw [hs.slots, hset] at hslots hapart hrest
    rw [hs.screen, hset] at hscreen hfits hrest
    exact ⟨hslots, hcalls, hscreen, hapart, hfits, hrest⟩
  · rw [State.image, hset, hc]
    rfl

/-- A machine with no byte of memory behind the screen, in a subroutine that has drawn a glyph : its
image shows the return address and the first row of the glyph, which memory does not have. -/
theorem serve_image_smallest : ∃ (built m : Machine) (image : Memory),
    Settings.Valid { memorySize := 0xF10, width := 8, height := 16 } ∧
    Machine.new { memorySize := 0xF10, width := 8, height := 16 } (.ofSeed 0) = .ok built ∧
    built.serve [.load [0x22, 0x04, 0, 0, 0xD0, 0x05], .cycle ⟨0, 0⟩, .cycle ⟨0, 0⟩] = m ∧
    m.state.image? = some image ∧ image.words 0xEA0 1 = [0x202] ∧
    (image.slice 0xF00 16).head? = some 0xF0 ∧ m.state.memory.read 0xF00 = 0 ∧
    image.read 0x200 = 0x22 := by
  have hvalid : Settings.Valid { memorySize := 0xF10, width := 8, height := 16 } := rfl
  obtain ⟨built, hbuilt, hserve⟩ := serve_image hvalid (.ofSeed 0)
  obtain rfl := Except.ok.inj ((new_eq_ok hvalid _).symm.trans hbuilt)
  have hserved := hserve [.load [0x22, 0x04, 0, 0, 0xD0, 0x05], .cycle ⟨0, 0⟩, .cycle ⟨0, 0⟩] _
    (.refl _)
  generalize hm : serve _ _ = m at hserved
  obtain ⟨image, himage, -, hcompact, -⟩ := hserved
  obtain ⟨-, hcalls, hscreen, -, -, hrest⟩ := hcompact rfl
  obtain ⟨hdepth, hstack, hpixels, hmemory, hprogram⟩ : m.state.stack.depth = 1 ∧
      m.state.stack.toList = [0x202] ∧ m.state.screen.bytes.toList.head? = some 0xF0 ∧
      m.state.memory.read 0xF00 = 0 ∧ m.state.memory.read 0x200 = 0x22 := by
    rw [← hm]
    decide +kernel
  rw [hdepth, hstack] at hcalls
  have hfirst : (image.slice 0xF00 16).head? = some 0xF0 := by
    rw [← hpixels]
    exact congrArg List.head? hscreen
  have hread := hrest 0x200 (.inl (by decide)) (.inl (by decide))
  exact ⟨_, m, image, hvalid, hbuilt, hm, himage, hcalls, hfirst, hmemory, hread.trans hprogram⟩

end Machine

end Chip8
