import Chip8.Machine.Screen
import Mathlib.Order.Basic

/-!
# Pixels of a screen

A screen keeps eight pixels in a byte. Here it is read as a function of coordinates : what
inverting bits of a byte (`Screen.xorByte`) and drawing a row of a sprite
(`Screen.drawRow`) do to `Screen.pixel`, and when they report a pixel that went off.

A row of a sprite inverts a pixel exactly when the bit that falls on it is set
(`pixel_drawRow`), at either side of a byte's edge and across the right edge of the screen,
also where both parts of the row lie in one byte. It reports a hit exactly when one of the
pixels it inverts was on (`hit_drawRow`).
-/

namespace Chip8

/-! ## Bits of a byte -/

/-- Bit `k` of a byte, counted from its left end. -/
def column (b : UInt8) (k : Nat) : Bool := b.toNat.testBit (7 - k)

theorem testBit_of_le (b : UInt8) {i : Nat} (h : 8 ≤ i) : b.toNat.testBit i = false :=
  Nat.testBit_lt_two_pow (Nat.lt_of_lt_of_le b.toNat_lt (Nat.pow_le_pow_right (by omega) h))

theorem column_xor (a b : UInt8) (k : Nat) : column (a ^^^ b) k = (column a k ^^ column b k) := by
  simp [column]

theorem column_and (a b : UInt8) (k : Nat) : column (a &&& b) k = (column a k && column b k) := by
  simp [column]

/-- A byte is not zero exactly when one of its eight bits is set. -/
theorem bne_zero_iff_column (b : UInt8) : (b != 0) = true ↔ ∃ k < 8, column b k = true := by
  rw [bne_iff_ne]
  constructor
  · intro h
    have hne : b.toNat ≠ 0 := fun h0 => h (UInt8.toNat_inj.1 h0)
    obtain ⟨i, hi⟩ := Nat.exists_testBit_of_ne_zero hne
    have hlt : i < 8 := by
      by_contra hle
      rw [testBit_of_le b (by omega)] at hi
      cases hi
    exact ⟨7 - i, by omega, by rwa [column, show 7 - (7 - i) = i by omega]⟩
  · rintro ⟨k, -, hk⟩ rfl
    simp [column] at hk

/-- Shifting right by `o` moves every bit `o` places away from the left end. -/
theorem column_shiftRight (b : UInt8) {o k : Nat} (ho : o < 8) (hk : k < 8) :
    column (b >>> UInt8.ofNat o) k = (decide (o ≤ k) && column b (k - o)) := by
  simp only [column, UInt8.toNat_shiftRight, UInt8.toNat_ofNat', Nat.testBit_shiftRight]
  rw [show o % 2 ^ 8 % 8 = o by omega]
  by_cases h : o ≤ k
  · rw [show o + (7 - k) = 7 - (k - o) by omega]
    simp [h]
  · rw [testBit_of_le b (by omega)]
    simp [h]

/-- Shifting left by `8 - o` leaves the last `o` bits, at the left end. -/
theorem column_shiftLeft (b : UInt8) {o k : Nat} (ho : 0 < o) (ho' : o < 8) (hk : k < 8) :
    column (b <<< (8 - UInt8.ofNat o)) k = (decide (k < o) && column b (8 - o + k)) := by
  have hof : (UInt8.ofNat o).toNat = o := by
    rw [UInt8.toNat_ofNat']
    omega
  have hsub : (8 - UInt8.ofNat o).toNat = 8 - o := by
    have hle : UInt8.ofNat o ≤ 8 := UInt8.le_iff_toNat_le.2 (by rw [hof]; exact Nat.le_of_lt ho')
    rw [UInt8.toNat_sub_of_le _ _ hle, hof]
    rfl
  simp only [column, UInt8.toNat_shiftLeft, hsub, Nat.testBit_mod_two_pow, Nat.testBit_shiftLeft]
  rw [show (8 - o) % 8 = 8 - o by omega, show 7 - (8 - o + k) = 7 - k - (8 - o) by omega]
  have hlt : 7 - k < 8 := by omega
  by_cases h : k < o
  · have hle : 8 - o ≤ 7 - k := by omega
    simp [h, hlt, hle]
  · have hle : ¬8 - o ≤ 7 - k := by omega
    simp [h, hle]

theorem column_highBit : ∀ k < 8, column 0x80 k = decide (k = 0) := by decide

/-- A column is tested with the bit that is the first column shifted there. -/
theorem and_shiftRight_bne_zero (b : UInt8) {o : Nat} (ho : o < 8) :
    (b &&& (0x80 >>> UInt8.ofNat o) != 0) = column b o := by
  refine Bool.eq_iff_iff.2 ((bne_zero_iff_column _).trans ⟨?_, fun h => ⟨o, ho, ?_⟩⟩)
  · rintro ⟨k, hk, h⟩
    rw [column_and, column_shiftRight _ ho hk, column_highBit _ (by omega), Bool.and_eq_true,
      Bool.and_eq_true, decide_eq_true_iff, decide_eq_true_iff] at h
    obtain ⟨hb, hle, h0⟩ := h
    rw [show o = k by omega]
    exact hb
  · rw [column_and, column_shiftRight _ ho ho, column_highBit _ (by omega), h]
    simp

/-! ## Bytes of a screen -/

namespace Screen

/-- Rows of whole bytes, and as many bytes as they take. -/
structure WellFormed (s : Screen) : Prop where
  aligned : s.width.toNat % 8 = 0
  width_pos : 0 < s.width.toNat
  height_pos : 0 < s.height.toNat
  size : s.bytes.size = s.width.toNat * s.height.toNat / 8

variable {s : Screen}

namespace WellFormed

theorem width_eq (hs : s.WellFormed) : s.width.toNat = 8 * s.byteWidth := by
  have := hs.aligned
  unfold byteWidth
  omega

theorem byteWidth_pos (hs : s.WellFormed) : 0 < s.byteWidth := by
  have := hs.width_pos
  have := hs.width_eq
  omega

theorem div_lt (hs : s.WellFormed) {x : Nat} (hx : x < s.width.toNat) : x / 8 < s.byteWidth := by
  have := hs.width_eq
  omega

theorem size_eq (hs : s.WellFormed) : s.bytes.size = s.height.toNat * s.byteWidth := by
  rw [hs.size, hs.width_eq, Nat.mul_assoc, Nat.mul_div_cancel_left _ (by omega), Nat.mul_comm]

/-- Every byte of every row is a byte of the screen. -/
theorem index_lt (hs : s.WellFormed) {y k : Nat} (hy : y < s.height.toNat)
    (hk : k < s.byteWidth) : y * s.byteWidth + k < s.bytes.size := by
  rw [hs.size_eq]
  calc y * s.byteWidth + k < y * s.byteWidth + s.byteWidth := Nat.add_lt_add_left hk _
    _ = (y + 1) * s.byteWidth := (Nat.succ_mul _ _).symm
    _ ≤ s.height.toNat * s.byteWidth := Nat.mul_le_mul_right _ hy

end WellFormed

/-- Two bytes of a screen are the same if they are so in their rows. -/
theorem index_inj {y y' k k' : Nat} (hk : k < s.byteWidth) (hk' : k' < s.byteWidth) :
    y * s.byteWidth + k = y' * s.byteWidth + k' ↔ y = y' ∧ k = k' := by
  constructor
  · intro h
    have hy : y = y' := by
      have := congrArg (· / s.byteWidth) h
      simpa [Nat.mul_comm _ s.byteWidth, Nat.mul_add_div (Nat.zero_lt_of_lt hk),
        Nat.div_eq_of_lt hk, Nat.div_eq_of_lt hk'] using this
    subst hy
    exact ⟨rfl, by omega⟩
  · rintro ⟨rfl, rfl⟩
    rfl

theorem pixel_of_lt (s : Screen) {x y : Nat} (hx : x < s.width.toNat) (hy : y < s.height.toNat) :
    s.pixel x y = column (s.byte (y * s.byteWidth + x / 8)) (x % 8) := by
  simp only [pixel, byteIndex, Nat.mod_eq_of_lt hx, Nat.mod_eq_of_lt hy, column]

/-- A pixel of a screen is a bit of a byte in its row. -/
theorem pixel_byte (hs : s.WellFormed) {y j bit : Nat} (hy : y < s.height.toNat)
    (hj : j < s.byteWidth) (hbit : bit < 8) :
    s.pixel (j * 8 + bit) y = column (s.byte (y * s.byteWidth + j)) bit := by
  have hw := hs.width_eq
  have hdiv : (j * 8 + bit) / 8 = j := by omega
  have hmod : (j * 8 + bit) % 8 = bit := by omega
  rw [pixel_of_lt s (by omega) hy, hdiv, hmod]

/-! ## Inverting bits of a byte -/

theorem WellFormed.xorByte (hs : s.WellFormed) (i : Nat) (bits : UInt8) :
    (s.xorByte i bits).1.WellFormed :=
  ⟨hs.aligned, hs.width_pos, hs.height_pos, by rw [size_xorByte]; exact hs.size⟩

@[simp] theorem byteWidth_xorByte (i : Nat) (bits : UInt8) :
    (s.xorByte i bits).1.byteWidth = s.byteWidth := rfl

theorem byte_xorByte {i : Nat} (hi : i < s.bytes.size) (bits : UInt8) (j : Nat) :
    (s.xorByte i bits).1.byte j = if i = j then s.byte j ^^^ bits else s.byte j := by
  simp only [Screen.xorByte, byte, Array.getD_eq_getD_getElem?, Array.getElem?_setIfInBounds]
  by_cases h : i = j
  · subst h
    simp [hi]
  · simp [h]

theorem pixel_xorByte (hs : s.WellFormed) {y k : Nat} (hy : y < s.height.toNat)
    (hk : k < s.byteWidth) (bits : UInt8) {px py : Nat} (hpx : px < s.width.toNat)
    (hpy : py < s.height.toNat) :
    (s.xorByte (y * s.byteWidth + k) bits).1.pixel px py =
      (s.pixel px py ^^ (decide (py = y ∧ px / 8 = k) && column bits (px % 8))) := by
  rw [pixel_of_lt s hpx hpy, pixel_of_lt (s.xorByte _ bits).1 hpx hpy,
    byteWidth_xorByte, byte_xorByte (hs.index_lt hy hk)]
  by_cases h : py = y ∧ px / 8 = k
  · rw [if_pos ((index_inj hk (hs.div_lt hpx)).2 ⟨h.1.symm, h.2.symm⟩), column_xor]
    simp [h]
  · rw [if_neg fun he => h ((index_inj hk (hs.div_lt hpx)).1 he |>.imp Eq.symm Eq.symm)]
    simp [h]

/-- A hit is reported exactly when one of the pixels that are inverted was on. -/
theorem hit_xorByte (hs : s.WellFormed) {y k : Nat} (hy : y < s.height.toNat)
    (hk : k < s.byteWidth) (bits : UInt8) :
    (s.xorByte (y * s.byteWidth + k) bits).2 = true ↔
      ∃ px < s.width.toNat, s.pixel px y = true ∧ px / 8 = k ∧ column bits (px % 8) = true := by
  have hw := hs.width_eq
  rw [Screen.xorByte, bne_zero_iff_column]
  simp only [column_and, Bool.and_eq_true]
  constructor
  · rintro ⟨j, hj, hon, hbit⟩
    have hdiv : (8 * k + j) / 8 = k := by omega
    have hmod : (8 * k + j) % 8 = j := by omega
    refine ⟨8 * k + j, by omega, ?_, hdiv, by rwa [hmod]⟩
    rwa [pixel_of_lt s (by omega) hy, hdiv, hmod]
  · rintro ⟨px, hpx, hon, rfl, hbit⟩
    rw [pixel_of_lt s hpx hy] at hon
    exact ⟨px % 8, Nat.mod_lt _ (by omega), hon, hbit⟩

/-! ## Rows of a sprite -/

/-- The bit of a row at column `x` that falls on column `px`, the row wrapping at the right
edge. From 8 on there is none. -/
def spriteColumn (s : Screen) (x px : Nat) : Nat :=
  if x ≤ px then px - x else px + s.width.toNat - x

/-- Whether a row at column `x` inverts the pixel in column `px`. -/
def inverts (s : Screen) (x : Nat) (row : UInt8) (px : Nat) : Bool :=
  decide (s.spriteColumn x px < 8) && column row (s.spriteColumn x px)

theorem add_mod_eq_iff (hs : s.WellFormed) {x px c : Nat} (hx : x < s.width.toNat)
    (hpx : px < s.width.toNat) (hc : c < 8) :
    (x + c) % s.width.toNat = px ↔ c = s.spriteColumn x px := by
  have := hs.width_eq
  have := hs.byteWidth_pos
  unfold spriteColumn
  rcases Nat.lt_or_ge (x + c) s.width.toNat with h | h
  · rw [Nat.mod_eq_of_lt h]
    split <;> omega
  · rw [Nat.mod_eq_sub_mod h, Nat.mod_eq_of_lt (by omega)]
    split <;> omega

/-- A row inverts the byte of its column from its offset on, and the next byte of its screen
row before that offset. -/
theorem inverts_eq (hs : s.WellFormed) {x px : Nat} (hx : x < s.width.toNat)
    (hpx : px < s.width.toNat) (row : UInt8) :
    s.inverts x row px =
      ((decide (px / 8 = x / 8) &&
          (decide (x % 8 ≤ px % 8) && column row (px % 8 - x % 8))) ^^
        (decide (px / 8 = (x / 8 + 1) % s.byteWidth) &&
          (decide (px % 8 < x % 8) && column row (8 - x % 8 + px % 8)))) := by
  have hw := hs.width_eq
  have hk := hs.div_lt hx
  have hnext : (x / 8 + 1) % s.byteWidth = if x / 8 + 1 = s.byteWidth then 0 else x / 8 + 1 := by
    split
    · simp [*]
    · exact Nat.mod_eq_of_lt (by omega)
  rw [hnext, inverts, spriteColumn]
  rcases Nat.lt_or_ge (px % 8) (x % 8) with ho | ho
  · have hle : ¬x % 8 ≤ px % 8 := by omega
    simp only [hle, ho, decide_false, decide_true, Bool.false_and, Bool.and_false, Bool.true_and,
      Bool.false_xor]
    by_cases h : px / 8 = if x / 8 + 1 = s.byteWidth then 0 else x / 8 + 1
    · have hc : (if x ≤ px then px - x else px + s.width.toNat - x) = 8 - x % 8 + px % 8 := by
        split at h <;> split <;> omega
      rw [hc]
      simp only [h, decide_true, Bool.true_and]
      simp
      omega
    · have hc : ¬(if x ≤ px then px - x else px + s.width.toNat - x) < 8 := by
        split at h <;> split <;> omega
      simp [h, hc]
  · have hlt : ¬px % 8 < x % 8 := by omega
    simp only [hlt, ho, decide_false, decide_true, Bool.false_and, Bool.and_false, Bool.true_and,
      Bool.xor_false]
    by_cases h : px / 8 = x / 8
    · have hc : (if x ≤ px then px - x else px + s.width.toNat - x) = px % 8 - x % 8 := by
        split <;> omega
      rw [hc]
      simp only [h, decide_true, Bool.true_and]
      simp
      omega
    · have hc : ¬(if x ≤ px then px - x else px + s.width.toNat - x) < 8 := by
        split <;> omega
      simp [h, hc]

theorem drawRow_of_aligned (s : Screen) (x y : Nat) (row : UInt8) (h : x % 8 = 0) :
    s.drawRow x y row = s.xorByte (y * s.byteWidth + x / 8) (row >>> UInt8.ofNat (x % 8)) := by
  simp [drawRow, byteIndex, h]

theorem drawRow_of_offset (s : Screen) (x y : Nat) (row : UInt8) (h : 0 < x % 8) :
    s.drawRow x y row =
      let left := s.xorByte (y * s.byteWidth + x / 8) (row >>> UInt8.ofNat (x % 8))
      let right := left.1.xorByte (y * s.byteWidth + (x / 8 + 1) % s.byteWidth)
        (row <<< (8 - UInt8.ofNat (x % 8)))
      (right.1, left.2 || right.2) := by
  have hne : UInt8.ofNat (x % 8) ≠ 0 := by
    intro he
    have := congrArg UInt8.toNat he
    simp only [UInt8.toNat_ofNat', UInt8.toNat_zero] at this
    omega
  simp only [drawRow, byteIndex, rightIndex, if_neg hne]

theorem WellFormed.drawRow (hs : s.WellFormed) (x y : Nat) (row : UInt8) :
    (s.drawRow x y row).1.WellFormed :=
  ⟨by simpa using hs.aligned, by simpa using hs.width_pos, by simpa using hs.height_pos,
    by simpa using hs.size⟩

/-- A row inverts the pixels of its screen row on which a set bit falls, and no others. -/
theorem pixel_drawRow (hs : s.WellFormed) {x y : Nat} (hx : x < s.width.toNat)
    (hy : y < s.height.toNat) (row : UInt8) {px py : Nat} (hpx : px < s.width.toNat)
    (hpy : py < s.height.toNat) :
    (s.drawRow x y row).1.pixel px py =
      (s.pixel px py ^^ (decide (py = y) && s.inverts x row px)) := by
  have hk := hs.div_lt hx
  have ho : x % 8 < 8 := Nat.mod_lt _ (by omega)
  have hp : px % 8 < 8 := Nat.mod_lt _ (by omega)
  rw [inverts_eq hs hx hpx]
  rcases Nat.eq_zero_or_pos (x % 8) with h | h
  · rw [drawRow_of_aligned s x y row h, pixel_xorByte hs hy hk _ hpx hpy,
      column_shiftRight row ho hp]
    simp [h, Bool.and_assoc]
  · have hleft := hs.xorByte (y * s.byteWidth + x / 8) (row >>> UInt8.ofNat (x % 8))
    have hright := pixel_xorByte hleft
      hy (Nat.mod_lt (x / 8 + 1) hs.byteWidth_pos) (row <<< (8 - UInt8.ofNat (x % 8))) hpx hpy
    rw [byteWidth_xorByte] at hright
    rw [drawRow_of_offset s x y row h]
    dsimp only
    rw [hright, pixel_xorByte hs hy hk _ hpx hpy, column_shiftRight row ho hp,
      column_shiftLeft row h ho hp]
    by_cases hyy : py = y <;> simp [hyy]

/-- A row reports a hit exactly when one of the pixels it inverts was on. Where both of its
parts lie in one byte, the first does not touch the pixels of the second. -/
theorem hit_drawRow (hs : s.WellFormed) {x y : Nat} (hx : x < s.width.toNat)
    (hy : y < s.height.toNat) (row : UInt8) :
    (s.drawRow x y row).2 = true ↔
      ∃ px < s.width.toNat, s.pixel px y = true ∧ s.inverts x row px = true := by
  have hk := hs.div_lt hx
  have ho : x % 8 < 8 := Nat.mod_lt _ (by omega)
  have hp (px : Nat) : px % 8 < 8 := Nat.mod_lt _ (by omega)
  rcases Nat.eq_zero_or_pos (x % 8) with h | h
  · rw [drawRow_of_aligned s x y row h, hit_xorByte hs hy hk]
    refine exists_congr fun px => and_congr_right fun hpx => and_congr_right fun _ => ?_
    rw [inverts_eq hs hx hpx, column_shiftRight row ho (hp px)]
    simp [h]
  · have hright := hit_xorByte (hs.xorByte (y * s.byteWidth + x / 8) (row >>> UInt8.ofNat (x % 8)))
      hy (Nat.mod_lt (x / 8 + 1) hs.byteWidth_pos) (row <<< (8 - UInt8.ofNat (x % 8)))
    rw [byteWidth_xorByte] at hright
    rw [drawRow_of_offset s x y row h]
    dsimp only
    rw [Bool.or_eq_true, hit_xorByte hs hy hk, hright, ← exists_or]
    refine exists_congr fun px => ?_
    rw [width_xorByte, ← and_or_left]
    refine and_congr_right fun hpx => ?_
    rw [pixel_xorByte hs hy hk _ hpx hy, inverts_eq hs hx hpx, column_shiftRight row ho (hp px),
      column_shiftLeft row h ho (hp px)]
    rcases Nat.lt_or_ge (px % 8) (x % 8) with hlt | hle
    · have hnle : ¬x % 8 ≤ px % 8 := by omega
      simp [hlt, hnle]
    · have hnlt : ¬px % 8 < x % 8 := by omega
      simp [hle, hnlt]

end Screen

end Chip8
