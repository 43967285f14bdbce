import Chip8.Proofs.WellFormed
import Mathlib.Algebra.BigOperators.Group.Finset.Piecewise
import Mathlib.Algebra.BigOperators.Group.Finset.Sigma
import Mathlib.Algebra.Ring.Parity
import Mathlib.Data.Nat.ModEq

/-!
# Drawing a sprite

A sprite is drawn row by row (`Screen.drawRows`), and each of its set bits inverts the pixel
it falls on, both coordinates wrapping. `Screen.spriteBits` are the set bits that fall on a
pixel; a drawing inverts the pixel if their number is odd (`pixel_draw`).

A sprite that is not higher than the screen has at most one bit for each pixel, and then the
hit flag says whether a pixel went off (`hit_draw`). A higher one meets its own upper rows,
and reports pixels that it turned on itself.
-/

open Finset

namespace Chip8

namespace Screen

variable {s : Screen}

/-- The set bits of a sprite at column `x` of row `y` that fall on a pixel, each as its row
in the sprite and its column in that row. -/
def spriteBits (s : Screen) (x y : Nat) (sprite : List UInt8) (px py : Nat) :
    Finset (Nat × Nat) :=
  (range sprite.length ×ˢ range 8).filter fun b =>
    (x + b.2) % s.width.toNat = px ∧ (y + b.1) % s.height.toNat = py ∧
      column (sprite.getD b.1 0) b.2 = true

theorem mem_spriteBits {x y px py r c : Nat} {sprite : List UInt8} :
    (r, c) ∈ s.spriteBits x y sprite px py ↔ r < sprite.length ∧ c < 8 ∧
      (x + c) % s.width.toNat = px ∧ (y + r) % s.height.toNat = py ∧
        column (sprite.getD r 0) c = true := by
  simp [spriteBits, and_assoc]

@[simp] theorem spriteBits_nil (x y px py : Nat) : s.spriteBits x y [] px py = ∅ := by
  simp [spriteBits]

@[simp] theorem spriteBits_drawRow (x y : Nat) (row : UInt8) :
    (s.drawRow x y row).1.spriteBits = s.spriteBits := by
  funext x y sprite px py
  simp [spriteBits]

/-- A row has one bit for a pixel or none. -/
theorem sum_rowBits (hs : s.WellFormed) {x px : Nat} (hx : x < s.width.toNat)
    (hpx : px < s.width.toNat) (row : UInt8) (p : Prop) [Decidable p] :
    (∑ c ∈ range 8, if (x + c) % s.width.toNat = px ∧ p ∧ column row c = true then 1 else 0) =
      if p ∧ s.inverts x row px = true then 1 else 0 := by
  have hterm : ∀ c ∈ range 8,
      (if (x + c) % s.width.toNat = px ∧ p ∧ column row c = true then 1 else 0) =
        if s.spriteColumn x px = c then
          if p ∧ column row (s.spriteColumn x px) = true then 1 else 0 else 0 := by
    intro c hc
    have hiff := add_mod_eq_iff hs hx hpx (mem_range.1 hc)
    by_cases h : c = s.spriteColumn x px
    · rw [if_pos h.symm]
      simp only [hiff.2 h, true_and, ← h]
    · simp only [mt hiff.1 h, Ne.symm h, false_and, if_false]
  rw [sum_congr rfl hterm, sum_ite_eq]
  by_cases hc : s.spriteColumn x px < 8 <;> simp [inverts, hc]

/-- The first row has one bit for a pixel or none, and the others are a sprite one row
further down. -/
theorem card_spriteBits_cons (hs : s.WellFormed) {x y px : Nat} (hx : x < s.width.toNat)
    (hy : y < s.height.toNat) (hpx : px < s.width.toNat) (py : Nat) (row : UInt8)
    (rows : List UInt8) :
    (s.spriteBits x y (row :: rows) px py).card =
      (s.spriteBits x ((y + 1) % s.height.toNat) rows px py).card +
        if y = py ∧ s.inverts x row px = true then 1 else 0 := by
  simp only [spriteBits, card_filter, sum_product, List.length_cons]
  rw [sum_range_succ']
  congr 1
  · refine sum_congr rfl fun r _ => sum_congr rfl fun c _ => ?_
    rw [List.getD_cons_succ, Nat.mod_add_mod, show y + (r + 1) = y + 1 + r by omega]
  · simp only [List.getD_cons_zero, Nat.add_zero, Nat.mod_eq_of_lt hy]
    exact sum_rowBits hs hx hpx row (y = py)

theorem spriteBits_cons_nonempty (hs : s.WellFormed) {x y px : Nat} (hx : x < s.width.toNat)
    (hy : y < s.height.toNat) (hpx : px < s.width.toNat) (py : Nat) (row : UInt8)
    (rows : List UInt8) :
    (s.spriteBits x y (row :: rows) px py).Nonempty ↔
      (y = py ∧ s.inverts x row px = true) ∨
        (s.spriteBits x ((y + 1) % s.height.toNat) rows px py).Nonempty := by
  rw [← card_pos, ← card_pos, card_spriteBits_cons hs hx hy hpx]
  split_ifs with h <;> simp [h]

/-- A bit of a sprite that is not higher than the screen is told by the pixel it falls on. -/
theorem card_spriteBits_le_one (hs : s.WellFormed) {x : Nat} (hx : x < s.width.toNat) (y : Nat)
    {sprite : List UInt8} (hlen : sprite.length ≤ s.height.toNat) {px : Nat}
    (hpx : px < s.width.toNat) (py : Nat) : (s.spriteBits x y sprite px py).card ≤ 1 := by
  rw [card_le_one]
  rintro ⟨r, c⟩ h ⟨r', c'⟩ h'
  obtain ⟨hr, hc, hcol, hrow, -⟩ := mem_spriteBits.1 h
  obtain ⟨hr', hc', hcol', hrow', -⟩ := mem_spriteBits.1 h'
  rw [add_mod_eq_iff hs hx hpx hc] at hcol
  rw [add_mod_eq_iff hs hx hpx hc'] at hcol'
  have hmod : r ≡ r' [MOD s.height.toNat] :=
    Nat.ModEq.add_left_cancel' y (hrow.trans hrow'.symm)
  rw [hcol, hcol', hmod.eq_of_lt_of_lt (by omega) (by omega)]

/-- The rows below the first do not come back to it if the sprite is not higher than the
screen. -/
theorem ne_of_spriteBits_nonempty {x y px py : Nat} {rows : List UInt8}
    (hy : y < s.height.toNat) (hlen : rows.length < s.height.toNat)
    (h : (s.spriteBits x ((y + 1) % s.height.toNat) rows px py).Nonempty) : py ≠ y := by
  obtain ⟨⟨r, c⟩, h⟩ := h
  obtain ⟨hr, -, -, hrow, -⟩ := mem_spriteBits.1 h
  rintro rfl
  rw [Nat.mod_add_mod] at hrow
  have hmod : py + (1 + r) ≡ py + 0 [MOD s.height.toNat] := by
    rw [Nat.ModEq, ← Nat.add_assoc, hrow, Nat.add_zero, Nat.mod_eq_of_lt hy]
  have := (Nat.ModEq.add_left_cancel' py hmod).eq_of_lt_of_lt (by omega) (by omega)
  omega

/-! ## Rows after each other -/

/-- Drawing rows inverts the pixels on which an odd number of bits falls. -/
theorem pixel_drawRows (hs : s.WellFormed) {x y : Nat} (hx : x < s.width.toNat)
    (hy : y < s.height.toNat) (hit : Bool) (rows : List UInt8) {px py : Nat}
    (hpx : px < s.width.toNat) (hpy : py < s.height.toNat) :
    (s.drawRows x y hit rows).1.pixel px py =
      (s.pixel px py ^^ decide (Odd (s.spriteBits x y rows px py).card)) := by
  induction rows generalizing s y hit with
  | nil => simp [drawRows]
  | cons row rows ih =>
    have hnext : (y + 1) % s.height.toNat < s.height.toNat := Nat.mod_lt _ hs.height_pos
    rw [drawRows, ih (hs.drawRow x y row) (by simpa using hx) (by simpa using hnext) _
      (by simpa using hpx) (by simpa using hpy), pixel_drawRow hs hx hy row hpx hpy,
      spriteBits_drawRow, card_spriteBits_cons hs hx hy hpx, Bool.xor_assoc]
    congr 1
    generalize (s.spriteBits x ((y + 1) % s.height.toNat) rows px py).card = n
    by_cases h : py = y ∧ s.inverts x row px = true
    · have hflip : (decide (py = y) && s.inverts x row px) = true := by simpa using h
      rw [if_pos ⟨h.1.symm, h.2⟩, hflip, Bool.true_xor, ← decide_not]
      exact decide_eq_decide.2 Nat.odd_add_one.symm
    · have hkeep : (decide (py = y) && s.inverts x row px) = false := by simpa using h
      rw [if_neg fun h' => h ⟨h'.1.symm, h'.2⟩, hkeep, Bool.false_xor, Nat.add_zero]

/-- Rows of a sprite that is not higher than the screen report a hit exactly when one of
their bits falls on a pixel that was on before the first of them. -/
theorem hit_drawRows (hs : s.WellFormed) {x y : Nat} (hx : x < s.width.toNat)
    (hy : y < s.height.toNat) (hit : Bool) {rows : List UInt8}
    (hlen : rows.length ≤ s.height.toNat) :
    (s.drawRows x y hit rows).2 = true ↔ hit = true ∨
      ∃ px < s.width.toNat, ∃ py < s.height.toNat, s.pixel px py = true ∧
        (s.spriteBits x y rows px py).Nonempty := by
  induction rows generalizing s y hit with
  | nil => simp [drawRows]
  | cons row rows ih =>
    have hlt : rows.length < s.height.toNat := hlen
    have hnext : (y + 1) % s.height.toNat < s.height.toNat := Nat.mod_lt _ hs.height_pos
    rw [drawRows, ih (hs.drawRow x y row) (by simpa using hx) (by simpa using hnext) _
      (by simpa using hlt.le), Bool.or_eq_true, or_assoc, hit_drawRow hs hx hy row]
    refine or_congr_right ?_
    simp only [width_drawRow, height_drawRow, spriteBits_drawRow]
    constructor
    · rintro (⟨px, hpx, hon, hinv⟩ | ⟨px, hpx, py, hpy, hon, hne⟩)
      · exact ⟨px, hpx, y, hy, hon, (spriteBits_cons_nonempty hs hx hy hpx y row rows).2
          (Or.inl ⟨rfl, hinv⟩)⟩
      · refine ⟨px, hpx, py, hpy, ?_, (spriteBits_cons_nonempty hs hx hy hpx py row rows).2
          (Or.inr hne)⟩
        simpa [pixel_drawRow hs hx hy row hpx hpy, ne_of_spriteBits_nonempty hy hlt hne] using hon
    · rintro ⟨px, hpx, py, hpy, hon, hne⟩
      rcases (spriteBits_cons_nonempty hs hx hy hpx py row rows).1 hne with ⟨rfl, hinv⟩ | hne
      · exact Or.inl ⟨px, hpx, hon, hinv⟩
      · refine Or.inr ⟨px, hpx, py, hpy, ?_, hne⟩
        rw [pixel_drawRow hs hx hy row hpx hpy]
        simpa [ne_of_spriteBits_nonempty hy hlt hne] using hon

/-! ## Whole sprites -/

/-- A sprite inverts the pixels on which an odd number of its bits falls. -/
theorem pixel_draw (hs : s.WellFormed) (x y : Nat) (sprite : List UInt8) {px py : Nat}
    (hpx : px < s.width.toNat) (hpy : py < s.height.toNat) :
    (s.draw x y sprite).1.pixel px py = (s.pixel px py ^^ decide
      (Odd (s.spriteBits (x % s.width.toNat) (y % s.height.toNat) sprite px py).card)) :=
  pixel_drawRows hs (Nat.mod_lt _ hs.width_pos) (Nat.mod_lt _ hs.height_pos) false sprite hpx hpy

/-- A sprite that is not higher than the screen reports a hit exactly when a pixel went off. -/
theorem hit_draw (hs : s.WellFormed) (x y : Nat) {sprite : List UInt8}
    (hlen : sprite.length ≤ s.height.toNat) :
    (s.draw x y sprite).2 = true ↔ ∃ px < s.width.toNat, ∃ py < s.height.toNat,
      s.pixel px py = true ∧ (s.draw x y sprite).1.pixel px py = false := by
  have hx : x % s.width.toNat < s.width.toNat := Nat.mod_lt _ hs.width_pos
  rw [draw, hit_drawRows hs hx (Nat.mod_lt _ hs.height_pos) false hlen]
  simp only [Bool.false_eq_true, false_or]
  refine exists_congr fun px => and_congr_right fun hpx => exists_congr fun py =>
    and_congr_right fun hpy => and_congr_right fun hon => ?_
  have hle := card_spriteBits_le_one hs hx (y % s.height.toNat) hlen hpx py
  rw [← draw, pixel_draw hs x y sprite hpx hpy, hon, ← card_pos]
  simp only [Bool.true_xor, Bool.not_eq_false', decide_eq_true_eq]
  constructor
  · intro hpos
    rw [show (s.spriteBits (x % s.width.toNat) (y % s.height.toNat) sprite px py).card = 1 by omega]
    exact odd_one
  · rintro ⟨k, hk⟩
    omega

/-- Drawing changes the bytes alone. -/
theorem draw_eq (s : Screen) (x y : Nat) (sprite : List UInt8) :
    (s.draw x y sprite).1 = { s with bytes := (s.draw x y sprite).1.bytes } := by
  have hw := s.width_draw x y sprite
  have hh := s.height_draw x y sprite
  generalize (s.draw x y sprite).1 = t at hw hh
  cases t
  subst hw hh
  rfl

end Screen

/-! ## Sprites in memory -/

namespace State

variable {s t : State} {vx vy rows : UInt8} {hit : Bool}

/-- The set bits of the sprite at the index register that fall on a pixel when it is drawn
at `(vx, vy)`, each as its row and its column in the sprite. -/
def spriteBits (s : State) (vx vy rows : UInt8) (px py : Nat) : Finset (Nat × Nat) :=
  (range rows.toNat ×ˢ range 8).filter fun b =>
    (vx.toNat % s.screen.width.toNat + b.2) % s.screen.width.toNat = px ∧
      (vy.toNat % s.screen.height.toNat + b.1) % s.screen.height.toNat = py ∧
        (s.memory.read (s.index.toNat + b.1)).toNat.testBit (7 - b.2) = true

/-- The rows of the sprite are the bytes from the index register on. -/
theorem spriteBits_eq (s : State) (vx vy rows : UInt8) (px py : Nat) :
    s.spriteBits vx vy rows px py =
      s.screen.spriteBits (vx.toNat % s.screen.width.toNat) (vy.toNat % s.screen.height.toNat)
        (s.memory.slice s.index.toNat rows.toNat) px py := by
  ext ⟨r, c⟩
  rw [Screen.mem_spriteBits, Memory.length_slice]
  simp only [spriteBits, mem_filter, mem_product, mem_range, and_assoc]
  refine and_congr_right fun hr => ?_
  rw [Memory.slice, List.getD_eq_getElem?_getD, List.getElem?_map, List.getElem?_range hr]
  rfl

theorem drawSprite_ok (h : s.drawSprite vx vy rows = .ok (t, hit)) :
    let drawn := s.screen.draw vx.toNat vy.toNat (s.memory.slice s.index.toNat rows.toNat)
    t = { s with screen := drawn.1 } ∧ hit = drawn.2 := by
  unfold drawSprite at h
  dsimp only at h
  split at h
  · cases h
  · split at h
    · cases h
    · cases h
      exact ⟨rfl, rfl⟩

theorem drawSprite_of_le (s : State) (vx vy : UInt8) {rows : UInt8}
    (hword : s.index.toNat + rows.toNat < 0x10000)
    (hmem : s.index.toNat + rows.toNat ≤ s.memory.size) :
    s.drawSprite vx vy rows =
      let drawn := s.screen.draw vx.toNat vy.toNat (s.memory.slice s.index.toNat rows.toNat)
      .ok ({ s with screen := drawn.1 }, drawn.2) := by
  rw [drawSprite, if_neg (by omega), if_neg (by omega)]

/-- A sprite that is drawn inverts each pixel as often as its bits fall on it, and changes
nothing but the pixels. If it is not higher than the screen, and no operation draws a higher
one, it reports a hit exactly when a pixel went off. -/
theorem pixel_drawSprite (hs : s.WellFormed) (h : s.drawSprite vx vy rows = .ok (t, hit)) :
    (∀ px < s.screen.width.toNat, ∀ py < s.screen.height.toNat, t.screen.pixel px py =
      (s.screen.pixel px py ^^ decide (Odd (s.spriteBits vx vy rows px py).card))) ∧
    (rows.toNat ≤ s.screen.height.toNat → (hit = true ↔
      ∃ px < s.screen.width.toNat, ∃ py < s.screen.height.toNat,
        s.screen.pixel px py = true ∧ t.screen.pixel px py = false)) ∧
    (∀ n : Nibble, n.val ≤ s.screen.height.toNat) ∧
    t = { s with screen := { s.screen with bytes := t.screen.bytes } } ∧
    t.screen.bytes.size = s.screen.bytes.size := by
  obtain ⟨rfl, rfl⟩ := drawSprite_ok h
  have hscreen := hs.wellFormed_screen
  refine ⟨fun px hpx py hpy => ?_, fun hle => ?_, fun n => ?_, ?_, Screen.size_draw ..⟩
  · rw [spriteBits_eq]
    exact Screen.pixel_draw hscreen _ _ _ hpx hpy
  · exact Screen.hit_draw hscreen _ _ (by simpa using hle)
  · have := hs.valid.sixteen_le_height
    rw [hs.height]
    omega
  · exact congrArg (fun screen => { s with screen := screen }) (Screen.draw_eq ..)

/-- On a screen of one byte in a row, both parts of a row lie in that byte. -/
theorem pixel_drawSprite_smallest : ∃ t hit, (initial .smallest).WellFormed ∧
    (initial .smallest).drawSprite 5 15 1 = .ok (t, hit) ∧ t.screen.pixel 0 15 = true := by
  have hs : (initial .smallest).WellFormed := WellFormed.initial Settings.valid_smallest
  have hfit : (initial .smallest).index.toNat + (1 : UInt8).toNat ≤
      (initial .smallest).memory.size := by
    rw [hs.memory]
    decide
  have h := drawSprite_of_le (initial .smallest) 5 15 (by decide) hfit
  refine ⟨_, _, hs, h, ?_⟩
  rw [(pixel_drawSprite hs h).1 0 (by decide) 15 (by decide)]
  decide +kernel

end State

end Chip8
