import Chip8.Proofs.Sprite

/-!
# Sprites after each other

A drawing inverts pixels, and which ones does not depend on what is on the screen : so after any
number of drawings a pixel is inverted if the number of all their bits that fall on it is odd
(`Screen.pixel_drawAll`). That number has no order, and twice the same drawings have an even one. A
screen is told by its pixels (`Screen.eq_of_pixel`), and both hold of the bytes, too.

A sprite that is drawn twice turns each of its pixels off in one of the two drawings, if it is not
higher than the screen : then a drawing reports a hit exactly if there is a pixel to invert
(`Screen.hit_draw_twice`).

`State.placeAll_perm` : this for sprites that lie anywhere in memory.
-/

namespace Chip8

/-! ## Screens and their pixels -/

/-- A byte is told by its bits. -/
theorem eq_of_column {a b : UInt8} (h : ∀ k < 8, column a k = column b k) : a = b := by
  by_contra hne
  obtain ⟨k, hk, hset⟩ := (bne_zero_iff_column (a ^^^ b)).1
    (bne_iff_ne.2 fun hzero => hne (UInt8.xor_eq_zero_iff.1 hzero))
  rw [column_xor, h k hk, Bool.xor_self] at hset
  cases hset

namespace Screen

variable {s t : Screen}

/-- A screen has the bytes of another one that has the same pixels. -/
theorem eq_of_pixel (hs : s.WellFormed) (ht : t.WellFormed) (hwidth : t.width = s.width)
    (hheight : t.height = s.height)
    (h : ∀ x < s.width.toNat, ∀ y < s.height.toNat, t.pixel x y = s.pixel x y) : t = s := by
  have hbyteWidth : t.byteWidth = s.byteWidth := by rw [byteWidth, byteWidth, hwidth]
  have hsize : t.bytes.size = s.bytes.size := by rw [ht.size, hs.size, hwidth, hheight]
  have hpos := hs.byteWidth_pos
  have hbyte : ∀ k < s.bytes.size, t.byte k = s.byte k := by
    intro k hk
    have hy : k / s.byteWidth < s.height.toNat :=
      Nat.div_lt_of_lt_mul (by rwa [Nat.mul_comm, ← hs.size_eq])
    have hj : k % s.byteWidth < s.byteWidth := Nat.mod_lt _ hpos
    have hk' : k / s.byteWidth * s.byteWidth + k % s.byteWidth = k := by
      rw [Nat.mul_comm]
      exact Nat.div_add_mod _ _
    refine eq_of_column fun bit hbit => ?_
    have hold := pixel_byte hs hy hj hbit
    have hnew := pixel_byte ht (hheight ▸ hy) (hbyteWidth ▸ hj) hbit
    rw [hbyteWidth, hk'] at hnew
    rw [hk'] at hold
    rw [← hnew, ← hold]
    refine h _ ?_ _ hy
    have := hs.width_eq
    omega
  have hbytes : t.bytes = s.bytes := Array.ext hsize fun k hk hk' => by
    have hget := hbyte k hk'
    simpa [byte, Array.getD, hk, hk'] using hget
  cases s
  cases t
  simp_all

end Screen

/-! ## Drawings in memory -/

/-- A drawing : where its sprite lies in memory, where it goes on the screen, and its rows. -/
structure Placement where
  /-- The address of the first row. -/
  index : UInt16
  /-- The column of the left edge, which wraps. -/
  x : UInt8
  /-- The row of the upper edge, which wraps. -/
  y : UInt8
  /-- The rows, a byte each. -/
  rows : UInt8
  deriving DecidableEq, Repr

namespace Placement

/-- The rows of the sprite. -/
def sprite (p : Placement) (m : Memory) : List UInt8 := m.slice p.index.toNat p.rows.toNat

/-- The sprite on a screen; whether a pixel went off. -/
def draw (p : Placement) (m : Memory) (s : Screen) : Screen × Bool :=
  s.draw p.x.toNat p.y.toNat (p.sprite m)

/-- How many bits of the sprite fall on a pixel. -/
def bitsOn (p : Placement) (m : Memory) (s : Screen) (px py : Nat) : Nat :=
  (s.spriteBits (p.x.toNat % s.width.toNat) (p.y.toNat % s.height.toNat) (p.sprite m) px py).card

/-- The sprite lies in memory, and the address behind it is one of sixteen bits. -/
def Fits (p : Placement) (s : State) : Prop :=
  p.index.toNat + p.rows.toNat < 0x10000 ∧ p.index.toNat + p.rows.toNat ≤ s.memory.size

instance (p : Placement) (s : State) : Decidable (p.Fits s) := inferInstanceAs (Decidable (_ ∧ _))

end Placement

namespace Screen

variable {s : Screen} {m : Memory} {p : Placement} {ps qs : List Placement}

/-- The screen with sprites drawn after each other. -/
def drawAll (s : Screen) (m : Memory) (ps : List Placement) : Screen :=
  ps.foldl (fun s p => (p.draw m s).1) s

theorem WellFormed.draw (hs : s.WellFormed) (p : Placement) (m : Memory) :
    (p.draw m s).1.WellFormed :=
  ⟨by simpa [Placement.draw] using hs.aligned, by simpa [Placement.draw] using hs.width_pos,
    by simpa [Placement.draw] using hs.height_pos, by simpa [Placement.draw] using hs.size⟩

/-- On which pixels bits fall is a matter of the size of the screen alone. -/
theorem bitsOn_draw (p q : Placement) (m : Memory) (s : Screen) :
    q.bitsOn m (p.draw m s).1 = q.bitsOn m s := by
  funext px py
  simp [Placement.bitsOn, Placement.draw, spriteBits]

theorem pixel_draw_placement (hs : s.WellFormed) (p : Placement) (m : Memory) {px py : Nat}
    (hpx : px < s.width.toNat) (hpy : py < s.height.toNat) :
    (p.draw m s).1.pixel px py = (s.pixel px py ^^ decide (Odd (p.bitsOn m s px py))) :=
  pixel_draw hs _ _ _ hpx hpy

/-- Drawings after each other have the size of the screen, and invert the pixels on which an odd
number of all their bits falls. -/
theorem pixel_drawAll (hs : s.WellFormed) (m : Memory) (ps : List Placement) :
    (s.drawAll m ps).WellFormed ∧ (s.drawAll m ps).width = s.width ∧
      (s.drawAll m ps).height = s.height ∧
      ∀ px < s.width.toNat, ∀ py < s.height.toNat, (s.drawAll m ps).pixel px py =
        (s.pixel px py ^^ decide (Odd (ps.map fun p => p.bitsOn m s px py).sum)) := by
  induction ps generalizing s with
  | nil => exact ⟨hs, rfl, rfl, fun px _ py _ => by simp [drawAll]⟩
  | cons p ps ih =>
    have hwidth : (p.draw m s).1.width = s.width := width_draw ..
    have hheight : (p.draw m s).1.height = s.height := height_draw ..
    obtain ⟨hwell, hw, hh, hpixel⟩ := ih (hs.draw p m)
    refine ⟨hwell, hw.trans hwidth, hh.trans hheight, fun px hpx py hpy => ?_⟩
    have hrest := hpixel px (hwidth ▸ hpx) py (hheight ▸ hpy)
    rw [drawAll, List.foldl_cons, ← drawAll, hrest, pixel_draw_placement hs p m hpx hpy,
      List.map_cons, List.sum_cons, Bool.xor_assoc]
    simp only [bitsOn_draw]
    congr 1
    generalize (ps.map fun p => p.bitsOn m s px py).sum = n
    by_cases hp : Odd (p.bitsOn m s px py) <;> by_cases hn : Odd n <;>
      simp [Nat.odd_add, hp, hn, Nat.not_odd_iff_even.1, ← Nat.not_odd_iff_even]

/-- The order of drawings does not matter. -/
theorem drawAll_perm (hs : s.WellFormed) (m : Memory) (h : qs.Perm ps) :
    s.drawAll m qs = s.drawAll m ps := by
  obtain ⟨hp, hpw, hph, hppixel⟩ := pixel_drawAll hs m ps
  obtain ⟨hq, hqw, hqh, hqpixel⟩ := pixel_drawAll hs m qs
  refine eq_of_pixel hp hq (hqw.trans hpw.symm) (hqh.trans hph.symm) fun px hpx py hpy => ?_
  rw [hpw] at hpx
  rw [hph] at hpy
  rw [hppixel px hpx py hpy, hqpixel px hpx py hpy, (h.map _).sum_eq]

/-- Drawings that come twice cancel, whatever their order. -/
theorem drawAll_append_perm (hs : s.WellFormed) (m : Memory) (h : qs.Perm ps) :
    s.drawAll m (ps ++ qs) = s := by
  obtain ⟨hwell, hwidth, hheight, hpixel⟩ := pixel_drawAll hs m (ps ++ qs)
  refine eq_of_pixel hs hwell hwidth hheight fun px hpx py hpy => ?_
  have heven : ¬Odd ((ps ++ qs).map fun p => p.bitsOn m s px py).sum := by
    rw [List.map_append, List.sum_append, (h.map _).sum_eq, Nat.not_odd_iff_even]
    exact ⟨_, rfl⟩
  rw [hpixel px hpx py hpy, decide_eq_false heven, Bool.xor_false]

/-! ## Hits -/

/-- A bit of a sprite falls on some pixel. -/
theorem exists_bitsOn_pos (hs : s.WellFormed) (p : Placement) (m : Memory) :
    (∃ px < s.width.toNat, ∃ py < s.height.toNat, 0 < p.bitsOn m s px py) ↔
      ∃ k < p.rows.toNat, m.read (p.index.toNat + k) ≠ 0 := by
  have hlength : (p.sprite m).length = p.rows.toNat := Memory.length_slice ..
  have hrow : ∀ k < p.rows.toNat, (p.sprite m).getD k 0 = m.read (p.index.toNat + k) := by
    intro k hk
    simp [Placement.sprite, Memory.slice, hk]
  simp only [Placement.bitsOn, Finset.card_pos]
  constructor
  · rintro ⟨px, -, py, -, ⟨k, c⟩, hmem⟩
    obtain ⟨hk, hc, -, -, hset⟩ := mem_spriteBits.1 hmem
    rw [hlength] at hk
    rw [hrow k hk] at hset
    exact ⟨k, hk, bne_iff_ne.1 ((bne_zero_iff_column _).2 ⟨c, hc, hset⟩)⟩
  · rintro ⟨k, hk, hne⟩
    obtain ⟨c, hc, hset⟩ := (bne_zero_iff_column _).1 (bne_iff_ne.2 hne)
    refine ⟨_, Nat.mod_lt _ hs.width_pos, _, Nat.mod_lt _ hs.height_pos, (k, c),
      mem_spriteBits.2 ⟨hlength ▸ hk, hc, rfl, rfl, ?_⟩⟩
    rw [hrow k hk]
    exact hset

/-- A sprite that is not higher than the screen reports a hit exactly if one of its bits falls on a
pixel that is on. -/
theorem hit_draw_placement (hs : s.WellFormed) (m : Memory)
    (hheight : p.rows.toNat ≤ s.height.toNat) :
    (p.draw m s).2 = true ↔ ∃ px < s.width.toNat, ∃ py < s.height.toNat,
      s.pixel px py = true ∧ 0 < p.bitsOn m s px py := by
  have hlen : (p.sprite m).length ≤ s.height.toNat := by rwa [Placement.sprite, Memory.length_slice]
  have hrows := hit_drawRows hs (Nat.mod_lt p.x.toNat hs.width_pos)
    (Nat.mod_lt p.y.toNat hs.height_pos) false hlen
  simp only [Bool.false_eq_true, false_or] at hrows
  simp only [Placement.bitsOn, Finset.card_pos]
  exact hrows

/-- Of two equal drawings that are not higher than the screen, one reports a hit exactly if a bit
falls on a pixel at all : the first if the pixel was on, and else the second. -/
theorem hit_draw_twice (hs : s.WellFormed) (m : Memory) (hrows : p.rows.toNat ≤ s.height.toNat) :
    ((p.draw m s).2 || (p.draw m (p.draw m s).1).2) = true ↔
      ∃ px < s.width.toNat, ∃ py < s.height.toNat, 0 < p.bitsOn m s px py := by
  have hwidth : (p.draw m s).1.width = s.width := width_draw ..
  have hheight : (p.draw m s).1.height = s.height := height_draw ..
  have hlen : (p.sprite m).length ≤ s.height.toNat := by rwa [Placement.sprite, Memory.length_slice]
  rw [Bool.or_eq_true, hit_draw_placement hs m hrows,
    hit_draw_placement (hs.draw p m) m (hheight ▸ hrows), hwidth, hheight, bitsOn_draw, ← exists_or]
  refine exists_congr fun px => ?_
  rw [← and_or_left, ← exists_or]
  refine and_congr_right fun hpx => exists_congr fun py => ?_
  rw [← and_or_left, ← or_and_right]
  refine and_congr_right fun hpy => and_iff_right_of_imp fun hpos => ?_
  have hle : p.bitsOn m s px py ≤ 1 :=
    card_spriteBits_le_one hs (Nat.mod_lt _ hs.width_pos) _ hlen hpx py
  have hone : p.bitsOn m s px py = 1 := by omega
  rw [pixel_draw_placement hs p m hpx hpy, hone]
  cases s.pixel px py <;> decide

end Screen

/-! ## Drawings of a machine -/

namespace State

variable {s : State} {p : Placement} {ps qs : List Placement}

/-- Draws a sprite, with the index register on its first row; whether a pixel went off. -/
def place (s : State) (p : Placement) : Except Fault (State × Bool) :=
  { s with index := p.index }.drawSprite p.x p.y p.rows

/-- The state with a sprite drawn, if it can be. -/
def placed (s : State) (p : Placement) : State :=
  match s.place p with
  | .ok (drawn, _) => drawn
  | .error _ => { s with index := p.index }

/-- The state with sprites drawn after each other. -/
def placeAll (s : State) (ps : List Placement) : State := ps.foldl placed s

theorem place_of_fits (h : p.Fits s) :
    s.place p = .ok ({ s with index := p.index, screen := (p.draw s.memory s.screen).1 },
      (p.draw s.memory s.screen).2) :=
  drawSprite_of_le { s with index := p.index } p.x p.y h.1 h.2

/-- A sprite is drawn exactly if it fits. -/
theorem place_eq_ok_iff : (∃ drawn hit, s.place p = .ok (drawn, hit)) ↔ p.Fits s := by
  refine ⟨fun ⟨drawn, hit, h⟩ => ?_, fun h => ⟨_, _, place_of_fits h⟩⟩
  unfold place drawSprite at h
  dsimp only at h
  split_ifs at h with hword hmem
  exact ⟨by omega, by omega⟩

theorem placed_of_fits (h : p.Fits s) :
    s.placed p = { s with index := p.index, screen := (p.draw s.memory s.screen).1 } := by
  rw [placed, place_of_fits h]

theorem placed_of_not_fits (h : ¬p.Fits s) : s.placed p = { s with index := p.index } := by
  unfold placed
  split
  · rename_i hplace
    exact absurd (place_eq_ok_iff.1 ⟨_, _, hplace⟩) h
  · rfl

/-- Drawings leave memory alone, and all of those that fit come to the screen. -/
theorem placeAll_eq (s : State) (ps : List Placement) :
    (s.placeAll ps).memory = s.memory ∧
      (s.placeAll ps).screen = s.screen.drawAll s.memory (ps.filter fun p => p.Fits s) := by
  induction ps generalizing s with
  | nil => exact ⟨rfl, rfl⟩
  | cons p ps ih =>
    obtain ⟨hmemory, hscreen⟩ := ih (s.placed p)
    by_cases h : p.Fits s
    · rw [placed_of_fits h] at hmemory hscreen
      rw [placeAll, List.foldl_cons, placed_of_fits h, ← placeAll, hmemory, hscreen,
        List.filter_cons_of_pos (by simpa using h)]
      exact ⟨rfl, rfl⟩
    · rw [placed_of_not_fits h] at hmemory hscreen
      rw [placeAll, List.foldl_cons, placed_of_not_fits h, ← placeAll, hmemory, hscreen,
        List.filter_cons_of_neg (by simpa using h)]
      exact ⟨rfl, rfl⟩

/-- Sprites that are drawn after each other. Each of them is drawn when its turn comes exactly if it
fits memory. The screen behind all of them does not depend on their order, and if all are drawn once
more, in any order, it is what it was. Of two drawings of one sprite that is not higher than the
screen, one reports a hit exactly if the sprite has a bit that is set. -/
theorem placeAll_perm (hs : s.WellFormed) :
    (∀ ps p, (∃ drawn hit, (s.placeAll ps).place p = .ok (drawn, hit)) ↔ p.Fits s) ∧
    (∀ ps qs, qs.Perm ps → (s.placeAll qs).screen = (s.placeAll ps).screen ∧
      (s.placeAll (ps ++ qs)).screen = s.screen) ∧
    ∀ p : Placement, p.Fits s → p.rows.toNat ≤ s.screen.height.toNat →
      ∃ drawn first again second, s.place p = .ok (drawn, first) ∧
        drawn.place p = .ok (again, second) ∧
        ((first || second) = true ↔
          ∃ k < p.rows.toNat, s.memory.read (p.index.toNat + k) ≠ 0) := by
  have hscreen := hs.wellFormed_screen
  refine ⟨fun ps p => ?_, fun ps qs h => ⟨?_, ?_⟩, fun p hfits hrows => ?_⟩
  · rw [place_eq_ok_iff, Placement.Fits, (placeAll_eq s ps).1, ← Placement.Fits]
  · rw [(placeAll_eq s ps).2, (placeAll_eq s qs).2]
    exact Screen.drawAll_perm hscreen _ (h.filter _)
  · rw [(placeAll_eq s _).2, List.filter_append]
    exact Screen.drawAll_append_perm hscreen _ (h.filter _)
  · have hagain : p.Fits
        { s with index := p.index, screen := (p.draw s.memory s.screen).1 } := hfits
    refine ⟨_, _, _, _, place_of_fits hfits, place_of_fits hagain, ?_⟩
    rw [← Screen.exists_bitsOn_pos hscreen]
    exact Screen.hit_draw_twice hscreen _ hrows

/-- On a screen of one byte in a row, a sprite of twenty rows that wraps at both edges, and one that
it meets. -/
theorem placeAll_perm_tall : ∃ (s : State) (tall low : Placement), s.WellFormed ∧
    s.screen.height.toNat < tall.rows.toNat ∧
    (s.placeAll [low, tall]).screen = (s.placeAll [tall, low]).screen ∧
    (s.placeAll [tall, low]).screen ≠ s.screen ∧
    (s.placeAll ([tall, low] ++ [low, tall])).screen = s.screen ∧
    ∃ drawn first again second, s.place low = .ok (drawn, first) ∧
      drawn.place low = .ok (again, second) ∧ (first || second) = true := by
  let s : State := .initial .smallest
  let tall : Placement := ⟨0, 5, 15, 20⟩
  let low : Placement := ⟨5, 6, 13, 5⟩
  have hs : s.WellFormed := WellFormed.initial Settings.valid_smallest
  obtain ⟨-, hperm, htwice⟩ := placeAll_perm hs
  obtain ⟨horder, hcancel⟩ := hperm [tall, low] [low, tall] (.swap tall low [])
  obtain ⟨drawn, first, again, second, hfirst, hsecond, hhit⟩ :=
    htwice low (by decide +kernel) (by decide)
  have hset : ∃ k < low.rows.toNat, s.memory.read (low.index.toNat + k) ≠ 0 :=
    ⟨0, by decide, by decide +kernel⟩
  exact ⟨s, tall, low, hs, by decide, horder, by decide +kernel, hcancel, drawn, first, again,
    second, hfirst, hsecond, hhit.2 hset⟩

end State

end Chip8
