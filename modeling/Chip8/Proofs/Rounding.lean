import Chip8.Binary64
import Mathlib.Algebra.Order.Field.Power
import Mathlib.Algebra.Order.Floor.Semifield
import Mathlib.Data.Rat.Floor
import Mathlib.Tactic.FieldSimp
import Mathlib.Tactic.Linarith
import Mathlib.Tactic.NormNum
import Mathlib.Tactic.Positivity
import Mathlib.Tactic.Ring

/-!
# Rounding to binary64

What rounding gives is told in rational numbers. `Binary64.IsNumber` are the numbers of the format,
and `Binary64.IsNearest q x` says that `x` is the one nearest to `q`, of two equally near ones the
even one : there is only one such number (`Binary64.IsNearest.unique`).

A ratio is rounded at its last place, where it has 53 bits before the point or, below the range of
the format, fewer (`Binary64.IsLastPlace`). All numbers that could be nearest are whole there
(`Binary64.IsLastPlace.eq_mul_or_lt`), so that the nearest whole number gives the nearest number
(`Binary64.isNearest_roundDiv`). From this, dividing, reading a decimal and multiplying give the
numbers nearest to the exact results (`Binary64.exists_isNearest_roundRatio`,
`Binary64.exists_isNearest_ofDecimal`, `Binary64.exists_isNearest_mulNat`).
-/

namespace Chip8

namespace Binary64

/-! ## The numbers of the format -/

/-- `x` has the mantissa `m` at the place `e`. -/
structure HasMantissa (m : ℕ) (e : ℤ) (x : ℚ) : Prop where
  bits : m < 2 ^ 53
  lowest : -1074 ≤ e
  highest : e ≤ 971
  value : x = m * 2 ^ e

/-- A number of the format, zero or above. -/
def IsNumber (x : ℚ) : Prop := ∃ m e, HasMantissa m e x

/-- A number of the format with an even mantissa. -/
def IsEven (x : ℚ) : Prop := ∃ m e, HasMantissa m e x ∧ Even m

/-- `x` is the number of the format that is nearest to `q`, of two numbers the even one. -/
structure IsNearest (q x : ℚ) : Prop where
  isNumber : IsNumber x
  le : ∀ y, IsNumber y → |x - q| ≤ |y - q|
  even : ∀ y, IsNumber y → y ≠ x → |y - q| = |x - q| → IsEven x

variable {q x y : ℚ} {m n d num den : ℕ} {e f : ℤ}

theorem IsNearest.le_of_le (h : IsNearest q x) (hy : IsNumber y) (hle : y ≤ q) : y ≤ x := by
  have hnear := h.le y hy
  rw [abs_of_nonpos (sub_nonpos.2 hle)] at hnear
  linarith [neg_abs_le (x - q)]

theorem IsNearest.ge_of_ge (h : IsNearest q x) (hy : IsNumber y) (hle : q ≤ y) : x ≤ y := by
  have hnear := h.le y hy
  rw [abs_of_nonneg (sub_nonneg.2 hle)] at hnear
  linarith [le_abs_self (x - q)]

/-- A number of the format is nearest to itself. -/
theorem IsNearest.eq_of_isNumber (h : IsNearest q x) (hq : IsNumber q) : x = q :=
  le_antisymm (h.ge_of_ge hq le_rfl) (h.le_of_le hq le_rfl)

/-- What stands at two places stands at the lower one. -/
theorem exists_even_sub (hx : HasMantissa (m + m) e x) (hy : HasMantissa (n + n) f y) :
    ∃ (j : ℤ) (g : ℤ), (g = e ∨ g = f) ∧ y - x = (j + j) * 2 ^ g := by
  have htwo : (2 : ℚ) ≠ 0 := two_ne_zero
  rcases le_total e f with hle | hle
  · obtain ⟨t, rfl⟩ := Int.le.dest hle
    refine ⟨n * 2 ^ t - m, e, .inl rfl, ?_⟩
    rw [hx.value, hy.value, zpow_add₀ htwo, zpow_natCast]
    push_cast
    ring
  · obtain ⟨t, rfl⟩ := Int.le.dest hle
    refine ⟨n - m * 2 ^ t, f, .inr rfl, ?_⟩
    rw [hx.value, hy.value, zpow_add₀ htwo, zpow_natCast]
    push_cast
    ring

/-- Of two neighbours, one is odd. A step at the place of either leads to the other one or
beyond. -/
theorem not_isEven_of_neighbours (hlt : x < y) (hx : IsEven x) (hy : IsEven y)
    (hbetween : ∀ z, IsNumber z → z ≤ x ∨ y ≤ z) : False := by
  obtain ⟨-, e, hm, m, rfl⟩ := hx
  obtain ⟨-, f, hn, n, rfl⟩ := hy
  have hmbits := hm.bits
  have hnbits := hn.bits
  have hsucc : y ≤ x + 2 ^ e := by
    have hstep : (0 : ℚ) < 2 ^ e := by positivity
    have hnext := hbetween (((m + m + 1 : ℕ) : ℚ) * 2 ^ e) ⟨_, e, by omega, hm.2, hm.3, rfl⟩
    rw [hm.value] at hnext ⊢
    rcases hnext with hz | hz <;> push_cast at * <;> linarith
  have hpred : y ≤ x + 2 ^ f := by
    have hstep : (0 : ℚ) < 2 ^ f := by positivity
    have hpos : n ≠ 0 := by
      rintro rfl
      rw [hm.value, hn.value, Nat.cast_zero, zero_mul] at hlt
      exact absurd hlt (not_lt.2 (by positivity))
    obtain ⟨k, rfl⟩ := Nat.exists_eq_succ_of_ne_zero hpos
    have hnext := hbetween (((k + k + 1 : ℕ) : ℚ) * 2 ^ f) ⟨_, f, by omega, hn.2, hn.3, rfl⟩
    rw [hn.value] at hnext ⊢
    rcases hnext with hz | hz <;> push_cast at * <;> linarith
  obtain ⟨j, g, hg, hsub⟩ := exists_even_sub hm hn
  have hstep : (0 : ℚ) < 2 ^ g := by positivity
  have hj : (1 : ℚ) ≤ j := by
    have hpos : (0 : ℚ) < (j + j) * 2 ^ g := hsub ▸ sub_pos.2 hlt
    have hj : (0 : ℚ) < (j + j : ℤ) := by
      push_cast
      exact pos_of_mul_pos_left hpos hstep.le
    exact_mod_cast (show 1 ≤ j by have := Int.cast_pos.1 hj; omega)
  have hstep' : 2 * 2 ^ g ≤ y - x := by
    rw [hsub]
    exact mul_le_mul_of_nonneg_right (by linarith) hstep.le
  rcases hg with rfl | rfl <;> linarith

theorem IsNearest.unique (hx : IsNearest q x) (hy : IsNearest q y) : x = y := by
  by_contra hne
  wlog hlt : x < y generalizing x y
  · exact this hy hx (Ne.symm hne) (lt_of_le_of_ne (not_lt.1 hlt) (Ne.symm hne))
  have hdist : |x - q| = |y - q| := le_antisymm (hx.le y hy.isNumber) (hy.le x hx.isNumber)
  refine not_isEven_of_neighbours hlt (hx.even y hy.isNumber (Ne.symm hne) hdist.symm)
    (hy.even x hx.isNumber hne hdist) fun z hz => ?_
  by_contra! hbetween
  have hnear := hx.le z hz
  have hnear' := hy.le z hz
  rcases le_total z q with hzq | hzq
  · rw [abs_of_nonpos (sub_nonpos.2 hzq)] at hnear
    linarith [neg_abs_le (x - q)]
  · rw [abs_of_nonneg (sub_nonneg.2 hzq)] at hnear'
    linarith [le_abs_self (y - q)]

/-! ## Rounding to a whole number -/

theorem roundDiv_cases (n d : ℕ) :
    (roundDiv n d = n / d ∧ 2 * (n % d) ≤ d ∨ roundDiv n d = n / d + 1 ∧ d ≤ 2 * (n % d)) ∧
      (2 * (n % d) = d → roundDiv n d % 2 = 0) := by
  unfold roundDiv
  dsimp only
  split_ifs <;> omega

/-- The whole number is at most a half away, and only an even one is just a half away. -/
theorem abs_roundDiv_sub (hd : 0 < d) :
    |(roundDiv n d : ℚ) - n / d| ≤ 1 / 2 ∧
      (|(roundDiv n d : ℚ) - n / d| = 1 / 2 → Even (roundDiv n d)) := by
  have hdpos : (0 : ℚ) < d := Nat.cast_pos.2 hd
  have hsplit : (n : ℚ) / d = (n / d : ℕ) + (n % d : ℕ) / d := by
    field_simp
    exact_mod_cast (Nat.div_add_mod n d).symm
  have hrest : ((n % d : ℕ) : ℚ) / d ≤ 1 :=
    (div_le_one hdpos).2 (Nat.cast_le.2 (Nat.mod_lt n hd).le)
  have hrest' : (0 : ℚ) ≤ ((n % d : ℕ) : ℚ) / d := by positivity
  obtain ⟨hcases, htie⟩ := roundDiv_cases n d
  have heven (h : ((n % d : ℕ) : ℚ) / d = 1 / 2) : Even (roundDiv n d) := by
    refine Nat.even_iff.2 (htie ?_)
    have hhalf := (div_eq_iff hdpos.ne').1 h
    exact_mod_cast (show 2 * ((n % d : ℕ) : ℚ) = d by linarith)
  rw [hsplit]
  rcases hcases with ⟨hround, hhalf⟩ | ⟨hround, hhalf⟩
  · have hhalf' : ((n % d : ℕ) : ℚ) / d ≤ 1 / 2 := by
      rw [div_le_iff₀ hdpos]
      linarith [show (2 : ℚ) * (n % d : ℕ) ≤ d from mod_cast hhalf]
    have hdist : |(roundDiv n d : ℚ) - ((n / d : ℕ) + (n % d : ℕ) / d)| = (n % d : ℕ) / d := by
      rw [hround, sub_add_cancel_left, abs_neg, abs_of_nonneg hrest']
    rw [hdist]
    exact ⟨hhalf', heven⟩
  · have hhalf' : 1 / 2 ≤ ((n % d : ℕ) : ℚ) / d := by
      rw [le_div_iff₀ hdpos]
      linarith [show (d : ℚ) ≤ 2 * (n % d : ℕ) from mod_cast hhalf]
    have hdist : |(roundDiv n d : ℚ) - ((n / d : ℕ) + (n % d : ℕ) / d)| =
        1 - (n % d : ℕ) / d := by
      rw [hround, Nat.cast_succ, add_sub_add_left_eq_sub, abs_of_nonneg (sub_nonneg.2 hrest)]
    rw [hdist]
    exact ⟨by linarith, fun h => heven (by linarith)⟩

/-- No other whole number is nearer, and none is as near unless the one that was taken is even. -/
theorem roundDiv_nearest (hd : 0 < d) {k : ℕ} (hk : k ≠ roundDiv n d) :
    |(roundDiv n d : ℚ) - n / d| ≤ |(k : ℚ) - n / d| ∧
      (|(k : ℚ) - n / d| = |(roundDiv n d : ℚ) - n / d| → Even (roundDiv n d)) := by
  obtain ⟨hhalf, heven⟩ := abs_roundDiv_sub (n := n) hd
  have happart : (1 : ℚ) ≤ |(k : ℚ) - roundDiv n d| := by
    have hint : (1 : ℤ) ≤ |(k : ℤ) - roundDiv n d| := Int.one_le_abs (by omega)
    exact_mod_cast hint
  have htriangle := abs_sub_le (k : ℚ) (n / d) (roundDiv n d)
  rw [abs_sub_comm ((n : ℚ) / d)] at htriangle
  exact ⟨by linarith, fun h => heven (by linarith)⟩

/-! ## The last place -/

theorem scale_snd_pos (hden : 0 < den) : 0 < (scale num den e).2 := by
  rw [scale]
  dsimp only
  rw [Nat.shiftLeft_eq]
  exact Nat.mul_pos hden (Nat.two_pow_pos _)

theorem scale_div (num den : ℕ) (e : ℤ) :
    ((scale num den e).1 : ℚ) / (scale num den e).2 = num / den / 2 ^ e := by
  simp only [scale, Nat.shiftLeft_eq, Nat.cast_mul, Nat.cast_pow, Nat.cast_ofNat]
  obtain ⟨t, rfl | rfl⟩ := e.eq_nat_or_neg
  · have hneg : (-(t : ℤ)).toNat = 0 := by omega
    rw [hneg, Int.toNat_natCast, pow_zero, mul_one, zpow_natCast, div_div]
  · have hneg : (-(t : ℤ)).toNat = 0 := by omega
    rw [hneg, neg_neg, Int.toNat_natCast, pow_zero, mul_one, zpow_neg, zpow_natCast, div_inv_eq_mul,
      div_mul_eq_mul_div]

/-- The first guess at the place is at most one too low. -/
theorem log2_bounds (hnum : 0 < num) (hden : 0 < den) :
    2 ^ 52 * 2 ^ ((num.log2 : ℤ) - den.log2 - 53) ≤ (num / den : ℚ) ∧
      (num / den : ℚ) < 2 ^ 53 * 2 ^ ((num.log2 : ℤ) - den.log2 - 53 + 1) := by
  have htwo : (2 : ℚ) ≠ 0 := two_ne_zero
  have hdpos : (0 : ℚ) < den := Nat.cast_pos.2 hden
  have hnumle : (2 : ℚ) ^ num.log2 ≤ num := mod_cast Nat.log2_self_le hnum.ne'
  have hnumlt : (num : ℚ) < 2 ^ (num.log2 + 1) := mod_cast Nat.lt_log2_self
  have hdenle : (2 : ℚ) ^ den.log2 ≤ den := mod_cast Nat.log2_self_le hden.ne'
  have hdenlt : (den : ℚ) < 2 ^ (den.log2 + 1) := mod_cast Nat.lt_log2_self
  constructor
  · rw [le_div_iff₀ hdpos]
    calc (2 : ℚ) ^ 52 * 2 ^ ((num.log2 : ℤ) - den.log2 - 53) * den
        ≤ 2 ^ 52 * 2 ^ ((num.log2 : ℤ) - den.log2 - 53) * 2 ^ (den.log2 + 1) := by gcongr
      _ = 2 ^ num.log2 := by
        rw [← zpow_natCast, ← zpow_natCast, ← zpow_natCast, ← zpow_add₀ htwo, ← zpow_add₀ htwo]
        congr 1
        push_cast
        ring
      _ ≤ num := hnumle
  · rw [div_lt_iff₀ hdpos]
    calc (num : ℚ) < 2 ^ (num.log2 + 1) := hnumlt
      _ = 2 ^ 53 * 2 ^ ((num.log2 : ℤ) - den.log2 - 53 + 1) * 2 ^ den.log2 := by
        rw [← zpow_natCast, ← zpow_natCast, ← zpow_natCast, ← zpow_add₀ htwo, ← zpow_add₀ htwo]
        congr 1
        push_cast
        ring
      _ ≤ 2 ^ 53 * 2 ^ ((num.log2 : ℤ) - den.log2 - 53 + 1) * den := by gcongr

theorem le_scale_iff (hden : 0 < den) (k : ℕ) :
    k ≤ (scale num den e).1 / (scale num den e).2 ↔ k * 2 ^ e ≤ (num / den : ℚ) := by
  have hpos : (0 : ℚ) < (scale num den e).2 := Nat.cast_pos.2 (scale_snd_pos hden)
  rw [Nat.le_div_iff_mul_le (scale_snd_pos hden), ← le_div_iff₀ (by positivity), ← scale_div,
    le_div_iff₀ hpos]
  exact_mod_cast Iff.rfl

/-- At the place `e`, `q` has at most 53 bits before the point, and just as many above the lowest
place. -/
structure IsLastPlace (q : ℚ) (e : ℤ) : Prop where
  lowest : -1074 ≤ e
  lt : q < 2 ^ 53 * 2 ^ e
  le : e = -1074 ∨ 2 ^ 52 * 2 ^ e ≤ q

/-- The last place is the one that is guessed from the lengths of the two numbers, or the place
above it. -/
theorem isLastPlace_lastPlace (hnum : 0 < num) (hden : 0 < den) :
    IsLastPlace (num / den) (lastPlace num den) := by
  obtain ⟨hlow, hhigh⟩ := log2_bounds hnum hden
  unfold lastPlace
  generalize (num.log2 : ℤ) - den.log2 - 53 = guess at *
  have hwhole : 0x20000000000000 ≤ (scale num den guess).1 / (scale num den guess).2 ↔ _ :=
    le_scale_iff hden 0x20000000000000
  dsimp only
  obtain ⟨place, hplace, hbits, hbits'⟩ : ∃ place,
      place = (if 0x20000000000000 ≤ (scale num den guess).1 / (scale num den guess).2
        then guess + 1 else guess) ∧
      2 ^ 52 * 2 ^ place ≤ (num / den : ℚ) ∧ (num / den : ℚ) < 2 ^ 53 * 2 ^ place := by
    refine ⟨_, rfl, ?_⟩
    split_ifs with hover
    · refine ⟨le_trans (le_of_eq ?_) (hwhole.1 hover), hhigh⟩
      rw [zpow_add_one₀ two_ne_zero]
      push_cast
      ring
    · exact ⟨hlow, lt_of_not_ge fun hle => hover (hwhole.2 (mod_cast hle))⟩
  rw [← hplace]
  refine ⟨le_max_left _ _, hbits'.trans_le ?_, ?_⟩
  · gcongr
    · norm_num
    · exact le_max_right _ _
  · rcases le_total place (-1074) with hle | hle
    · exact .inl (max_eq_left hle)
    · rw [max_eq_right hle]
      exact .inr hbits

namespace IsLastPlace

variable (h : IsLastPlace q e)
include h

theorem le_of_lt (hq : q < 2 ^ 1023) : e ≤ 970 := by
  rcases h.le with he | he
  · omega
  · have hpow : (2 : ℚ) ^ (52 + e) < 2 ^ (1023 : ℤ) := by
      rw [zpow_add₀ two_ne_zero]
      exact_mod_cast he.trans_lt hq
    have := (zpow_lt_zpow_iff_right₀ one_lt_two).1 hpow
    omega

theorem le_of_normal (hq : 2 ^ (-1022 : ℤ) ≤ q) : 2 ^ 52 * 2 ^ e ≤ q := by
  rcases h.le with rfl | he
  · rwa [← zpow_natCast, ← zpow_add₀ two_ne_zero]
  · exact he

/-- The numbers of the format are whole at the last place, as far as they are not too small to be
nearest. -/
theorem eq_mul_or_lt (hy : IsNumber y) :
    (∃ k : ℕ, y = k * 2 ^ e) ∨ y < 2 ^ 52 * 2 ^ e ∧ 2 ^ 52 * 2 ^ e ≤ q := by
  obtain ⟨m, f, hm⟩ := hy
  rcases le_or_gt e f with hle | hlt
  · obtain ⟨t, rfl⟩ := Int.le.dest hle
    refine .inl ⟨m * 2 ^ t, ?_⟩
    rw [hm.value, zpow_add₀ two_ne_zero, zpow_natCast]
    push_cast
    ring
  · refine .inr ⟨?_, h.le.resolve_left fun he => ?_⟩
    · have hbits : (m : ℚ) < 2 ^ 53 := mod_cast hm.bits
      calc y = m * 2 ^ f := hm.value
        _ < 2 ^ 53 * 2 ^ f := by gcongr
        _ ≤ 2 ^ 53 * 2 ^ (e - 1) := by
          gcongr
          · norm_num
          · omega
        _ = 2 ^ 52 * 2 ^ e := by
          rw [zpow_sub_one₀ two_ne_zero]
          ring
    · have := hm.lowest
      omega

end IsLastPlace

/-- A mantissa of 54 bits may be the least one : the number has another at the next place. -/
theorem exists_hasMantissa (hm : m ≤ 2 ^ 53) (hlow : -1074 ≤ e) (hhigh : e ≤ 970) :
    ∃ m' e', HasMantissa m' e' (m * 2 ^ e) ∧ (Even m → Even m') := by
  rcases hm.lt_or_eq with hlt | rfl
  · exact ⟨m, e, ⟨hlt, hlow, by omega, rfl⟩, id⟩
  · refine ⟨2 ^ 52, e + 1, ⟨by norm_num, by omega, by omega, ?_⟩, fun _ => by decide⟩
    rw [zpow_add_one₀ two_ne_zero]
    push_cast
    ring

theorem isNumber_mul_zpow (hm : m ≤ 2 ^ 53) (hlow : -1074 ≤ e) (hhigh : e ≤ 970) :
    IsNumber (m * 2 ^ e) :=
  have ⟨m', e', h, _⟩ := exists_hasMantissa hm hlow hhigh
  ⟨m', e', h⟩

theorem isNumber_natCast (hn : n ≤ 2 ^ 53) : IsNumber n := by
  have hnumber := isNumber_mul_zpow (e := 0) hn (by decide) (by decide)
  rwa [zpow_zero, mul_one] at hnumber

theorem isNearest_roundDiv (h : IsLastPlace q e) (he : e ≤ 970) (hd : 0 < d)
    (hq : (n / d : ℚ) = q / 2 ^ e) : IsNearest q (roundDiv n d * 2 ^ e) := by
  have hstep : (0 : ℚ) < 2 ^ e := by positivity
  have hdist (k : ℕ) : |(k : ℚ) * 2 ^ e - q| = |(k : ℚ) - n / d| * 2 ^ e := by
    rw [hq, ← abs_of_pos hstep, ← abs_mul, sub_mul, abs_of_pos hstep, div_mul_cancel₀ _ hstep.ne']
  have hbits : roundDiv n d ≤ 2 ^ 53 := by
    have hlt : (n / d : ℚ) < 2 ^ 53 := by
      rw [hq, div_lt_iff₀ hstep]
      exact h.lt
    have hhalf := le_abs_self ((roundDiv n d : ℚ) - n / d)
    have hround : (roundDiv n d : ℚ) < (2 ^ 53 : ℕ) + 1 := by
      push_cast
      linarith [(abs_roundDiv_sub (n := n) hd).1]
    exact Nat.lt_succ_iff.1 (by exact_mod_cast hround)
  obtain ⟨m', e', hm', heven⟩ := exists_hasMantissa hbits h.lowest he
  have hnear (k : ℕ) : |roundDiv n d * 2 ^ e - q| ≤ |k * 2 ^ e - q| := by
    by_cases hk : k = roundDiv n d
    · rw [hk]
    · rw [hdist, hdist]
      exact mul_le_mul_of_nonneg_right (roundDiv_nearest hd hk).1 hstep.le
  have hfar {y : ℚ} (hy : y < 2 ^ 52 * 2 ^ e ∧ 2 ^ 52 * 2 ^ e ≤ q) :
      |roundDiv n d * 2 ^ e - q| < |y - q| := by
    have hleast := hnear (2 ^ 52)
    rw [Nat.cast_pow, Nat.cast_ofNat, abs_of_nonpos (sub_nonpos.2 hy.2)] at hleast
    rw [abs_of_nonpos (sub_nonpos.2 (hy.1.le.trans hy.2))]
    linarith
  refine ⟨⟨m', e', hm'⟩, fun y hy => ?_, fun y hy hne htie => ⟨m', e', hm', heven ?_⟩⟩
  · rcases h.eq_mul_or_lt hy with ⟨k, rfl⟩ | hsmall
    · exact hnear k
    · exact (hfar hsmall).le
  · rcases h.eq_mul_or_lt hy with ⟨k, rfl⟩ | hsmall
    · have hk : k ≠ roundDiv n d := fun hk => hne (by rw [hk])
      rw [hdist, hdist] at htie
      exact (roundDiv_nearest hd hk).2 (mul_right_cancel₀ hstep.ne' htie)
    · exact absurd htie (hfar hsmall).ne'

/-- What is nearest is at most half a place away. -/
theorem IsNearest.abs_sub_le (h : IsNearest q x) (hplace : IsLastPlace q e) (he : e ≤ 970)
    (hq : 0 ≤ q) : |x - q| ≤ 2 ^ e / 2 := by
  have hstep : (0 : ℚ) < 2 ^ e := by positivity
  have hbelow := Nat.floor_le (div_nonneg hq hstep.le)
  have habove := Nat.lt_floor_add_one (q / 2 ^ e)
  have hbits : ⌊q / 2 ^ e⌋₊ < 2 ^ 53 := by
    rw [Nat.floor_lt (div_nonneg hq hstep.le), div_lt_iff₀ hstep]
    exact_mod_cast hplace.lt
  generalize ⌊q / 2 ^ e⌋₊ = k at *
  rw [le_div_iff₀ hstep] at hbelow
  rw [div_lt_iff₀ hstep] at habove
  have hnear := h.le _ (isNumber_mul_zpow hbits.le hplace.lowest he)
  have hnear' := h.le _ (isNumber_mul_zpow (m := k + 1) hbits hplace.lowest he)
  push_cast at hnear'
  rw [abs_of_nonpos (sub_nonpos.2 hbelow)] at hnear
  rw [abs_of_nonneg (sub_nonneg.2 habove.le)] at hnear'
  linarith

theorem exists_isLastPlace (hq : 0 < q) : ∃ e, IsLastPlace q e := by
  have hnum : 0 < q.num.toNat := by
    have := Rat.num_pos.2 hq
    omega
  have hratio : (q.num.toNat / q.den : ℚ) = q := by
    have hcast : (q.num.toNat : ℤ) = q.num := Int.toNat_of_nonneg (Rat.num_nonneg.2 hq.le)
    rw [← Int.cast_natCast, hcast, Rat.num_div_den]
  exact ⟨_, hratio ▸ isLastPlace_lastPlace hnum q.den_pos⟩

/-- Above the least numbers of the format, rounding changes less than one part in `2 ^ 53` : a `q`
that is rounded is more than `2 ^ 52` at its last place, as this is a number of the format. -/
theorem IsNearest.abs_sub_lt (h : IsNearest q x) (hlow : 2 ^ (-1022 : ℤ) ≤ q)
    (hhigh : q < 2 ^ 1023) (hne : x ≠ q) : |x - q| < q / 2 ^ 53 := by
  obtain ⟨e, hplace⟩ := exists_isLastPlace (lt_of_lt_of_le (by positivity) hlow)
  have he := hplace.le_of_lt hhigh
  have hbits := hplace.le_of_normal hlow
  have hhalf := h.abs_sub_le hplace he (le_trans (by positivity) hlow)
  have hstrict : 2 ^ 52 * 2 ^ e ≠ q := by
    rintro rfl
    refine hne (h.eq_of_isNumber ⟨2 ^ 52, e, by norm_num, hplace.lowest, by omega, ?_⟩)
    push_cast
    rfl
  have hlt := lt_of_le_of_ne hbits hstrict
  rw [lt_div_iff₀ (by positivity)]
  linarith

/-! ## Values -/

/-- The value of a finite number. -/
def toRat? : Binary64 → Option ℚ
  | finite false m e => some (m * 2 ^ e)
  | finite true m e => some (-(m * 2 ^ e))
  | _ => none

theorem exists_isNearest_roundRatio (hnum : 0 < num) (hden : 0 < den)
    (hlt : (num / den : ℚ) < 2 ^ 1023) :
    ∃ x, (roundRatio false num den).toRat? = some x ∧ IsNearest (num / den) x := by
  have hplace := isLastPlace_lastPlace hnum hden
  have he := hplace.le_of_lt hlt
  refine ⟨_, ?_, isNearest_roundDiv hplace he (scale_snd_pos hden)
    (scale_div num den (lastPlace num den))⟩
  rw [roundRatio]
  dsimp only
  rw [if_neg (by omega)]
  rfl

theorem exists_isNearest_mulNat {x : Binary64} {v : ℚ} {k : ℕ} (hx : x.toRat? = some v)
    (hv : 0 < v) (hk : 0 < k) (hlt : v * k < 2 ^ 1023) :
    ∃ p, (x.mulNat k).toRat? = some p ∧ IsNearest (v * k) p := by
  match x, hx with
  | finite true m e, hx =>
    obtain rfl := Option.some.inj hx
    exact absurd hv (not_lt.2 (neg_nonpos.2 (mul_nonneg m.cast_nonneg (zpow_nonneg two_pos.le e))))
  | finite false m e, hx =>
    obtain rfl := Option.some.inj hx
    have hratio : ((scale (m * k) 1 (-e)).1 : ℚ) / (scale (m * k) 1 (-e)).2 = m * 2 ^ e * k := by
      rw [scale_div, zpow_neg, Nat.cast_one, div_one, div_inv_eq_mul]
      push_cast
      ring
    have hden : 0 < (scale (m * k) 1 (-e)).2 := scale_snd_pos Nat.one_pos
    have hm : m ≠ 0 := by
      rintro rfl
      simp at hv
    have hnum : 0 < (scale (m * k) 1 (-e)).1 := by
      refine Nat.pos_of_ne_zero fun hzero => ?_
      rw [hzero, Nat.cast_zero, zero_div] at hratio
      exact absurd hratio (mul_pos hv (Nat.cast_pos.2 hk)).ne
    obtain ⟨p, hp, hnearest⟩ := exists_isNearest_roundRatio hnum hden (by rwa [hratio])
    rw [hratio] at hnearest
    refine ⟨p, ?_, hnearest⟩
    rw [mulNat, if_neg hm]
    exact hp

/-- A number becomes the word of its whole part, as far as that is a word. -/
theorem toWord_eq {x : Binary64} {v : ℚ} (hx : x.toRat? = some v) :
    x.toWord = UInt64.ofNat (min ⌊v⌋₊ (UInt64.size - 1)) := by
  match x, hx with
  | finite true m e, hx =>
    obtain rfl := Option.some.inj hx
    rw [Nat.floor_of_nonpos (neg_nonpos.2 (by positivity))]
    rfl
  | finite false m e, hx =>
    obtain rfl := Option.some.inj hx
    have hwhole : m <<< e.toNat >>> (-e).toNat = ⌊(m * 2 ^ e : ℚ)⌋₊ := by
      rw [Nat.shiftLeft_eq, Nat.shiftRight_eq_div_pow]
      obtain ⟨t, rfl | rfl⟩ := e.eq_nat_or_neg
      · have hneg : (-(t : ℤ)).toNat = 0 := by omega
        rw [hneg, Int.toNat_natCast, pow_zero, Nat.div_one, zpow_natCast]
        exact_mod_cast (Nat.floor_natCast (m * 2 ^ t)).symm
      · have hneg : (-(t : ℤ)).toNat = 0 := by omega
        have hfloor := Nat.floor_div_eq_div (K := ℚ) m (2 ^ t)
        rw [Nat.cast_pow, Nat.cast_ofNat] at hfloor
        rw [hneg, neg_neg, Int.toNat_natCast, pow_zero, mul_one, zpow_neg, zpow_natCast,
          ← div_eq_mul_inv, hfloor]
    rw [← hwhole]
    rfl

end Binary64

/-! ## Decimals -/

/-- The value of a decimal. -/
def Decimal.value (d : Decimal) : ℚ := d.significand * 10 ^ d.exponent

namespace Binary64

variable {d : Decimal}

theorem exponent_lt (hpos : 0 < d.significand) (hhigh : d.value < 2 ^ 1023) :
    d.exponent < 310 := by
  by_contra! hexponent
  refine absurd hhigh (not_lt.2 ?_)
  have hsignificand : (1 : ℚ) ≤ d.significand := mod_cast hpos
  calc (2 : ℚ) ^ 1023 = (2 ^ 33) ^ 31 := by rw [← pow_mul]
    _ ≤ (10 ^ 10) ^ 31 := pow_le_pow_left₀ (by norm_num) (by norm_num) 31
    _ = 10 ^ (310 : ℤ) := by rw [← pow_mul, zpow_ofNat]
    _ ≤ 1 * 10 ^ d.exponent := by
      rw [one_mul]
      exact zpow_le_zpow_right₀ (by norm_num) hexponent
    _ ≤ d.value := mul_le_mul_of_nonneg_right hsignificand (by positivity)

/-- A number has at most a decimal digit for three binary ones, and one more. -/
theorem lt_pow_log2 (n : ℕ) : n < 10 ^ (n.log2 / 3 + 1) := by
  calc n < 2 ^ (n.log2 + 1) := Nat.lt_log2_self
    _ ≤ 2 ^ (3 * (n.log2 / 3 + 1)) := Nat.pow_le_pow_right two_pos (by omega)
    _ = (2 ^ 3) ^ (n.log2 / 3 + 1) := by rw [pow_mul]
    _ ≤ 10 ^ (n.log2 / 3 + 1) := Nat.pow_le_pow_left (by decide) _

theorem lt_exponent (hlow : 2 ^ (-1022 : ℤ) ≤ d.value) :
    -400 < d.exponent + ((d.significand.log2 : ℤ) / 3 + 2) := by
  by_contra! hexponent
  refine absurd hlow (not_le.2 ?_)
  have hten : (0 : ℚ) < 10 := by norm_num
  have hsignificand : (d.significand : ℚ) < 10 ^ ((d.significand.log2 / 3 + 1 : ℕ) : ℤ) := by
    rw [zpow_natCast]
    exact_mod_cast lt_pow_log2 d.significand
  calc d.value < 10 ^ ((d.significand.log2 / 3 + 1 : ℕ) : ℤ) * 10 ^ d.exponent :=
        mul_lt_mul_of_pos_right hsignificand (by positivity)
    _ = 10 ^ (((d.significand.log2 / 3 + 1 : ℕ) : ℤ) + d.exponent) := (zpow_add₀ hten.ne' _ _).symm
    _ ≤ 10 ^ (-401 : ℤ) := zpow_le_zpow_right₀ (by norm_num) (by push_cast; omega)
    _ = (10 ^ 401)⁻¹ := by rw [zpow_neg, zpow_ofNat]
    _ ≤ ((2 ^ 3) ^ 401)⁻¹ :=
      inv_anti₀ (by positivity) (pow_le_pow_left₀ (by norm_num) (by norm_num) 401)
    _ ≤ (2 ^ 1022)⁻¹ := by
      rw [← pow_mul]
      exact inv_anti₀ (by positivity) (pow_le_pow_right₀ one_le_two (by norm_num))
    _ = 2 ^ (-1022 : ℤ) := by rw [zpow_neg, zpow_ofNat]

/-- Decimals whose value is in the range of the format are not cut off. -/
theorem exists_isNearest_ofDecimal (hlow : 2 ^ (-1022 : ℤ) ≤ d.value)
    (hhigh : d.value < 2 ^ 1023) :
    ∃ x, (ofDecimal false d).toRat? = some x ∧ IsNearest d.value x := by
  have hpos : 0 < d.significand := by
    refine Nat.pos_of_ne_zero fun hzero => ?_
    rw [Decimal.value, hzero, Nat.cast_zero, zero_mul] at hlow
    exact absurd hlow (not_le.2 (zpow_pos two_pos _))
  have hratio : ((d.significand * Nat.pow 10 d.exponent.toNat : ℕ) : ℚ) /
      (Nat.pow 10 (-d.exponent).toNat : ℕ) = d.value := by
    rw [Decimal.value, Nat.pow_eq, Nat.pow_eq, Nat.cast_mul, Nat.cast_pow, Nat.cast_pow,
      Nat.cast_ofNat]
    obtain ⟨t, ht | ht⟩ := d.exponent.eq_nat_or_neg
    · have hneg : (-d.exponent).toNat = 0 := by omega
      rw [hneg, ht, Int.toNat_natCast, pow_zero, div_one, zpow_natCast]
    · have hneg : d.exponent.toNat = 0 := by omega
      rw [hneg, ht, neg_neg, Int.toNat_natCast, pow_zero, mul_one, zpow_neg, zpow_natCast,
        div_eq_mul_inv]
  have hpow (k : ℕ) : 0 < Nat.pow 10 k := Nat.pow_pos (by decide)
  obtain ⟨x, hx, hnearest⟩ := exists_isNearest_roundRatio (Nat.mul_pos hpos (hpow _)) (hpow _)
    (by rwa [hratio])
  rw [hratio] at hnearest
  refine ⟨x, ?_, hnearest⟩
  rw [ofDecimal, if_neg hpos.ne', if_neg (not_le.2 (exponent_lt hpos hhigh)),
    if_neg (not_le.2 (lt_exponent hlow))]
  exact hx

end Binary64

end Chip8
