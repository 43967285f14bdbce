import Chip8.Proofs.NumberText
import Chip8.Proofs.Rounding
import Chip8.Quantity

/-!
# Frequencies with a unit

A decimal numeral before a unit is exact as it is read (`DenotesDecimal.read?_eq`). Then it is
rounded twice, once as a number of the format binary64 and once as the product with the size of the
unit, and what is behind the point of the product is cut off. `Rounds` are the two numbers on the
way.

A numeral that stands for a whole number `F` of cycles comes out as `F`, or as a neighbour of `F`
(`Counts.floor_bounds`) : the first rounding moves the product by less than one part in `2 ^ 53`,
and the second one does not pass `F - 1`, `F` or `F + 1 / 2`, as these are numbers of the format.
Where the first rounding goes down, the second one need not get back up to `F`, and cutting then
takes one cycle (`readFrequency_unit_cut`). `readFrequency_unit` says which numerals keep theirs.
-/

namespace Chip8

/-! ## Decimal numerals -/

/-- Digits with at most one point among them have the value `d`. -/
def DenotesDecimal (cs : List Char) (d : ℚ) : Prop :=
  ∃ whole fraction w, (fraction = [] ∧ cs = whole ∨ cs = whole ++ '.' :: fraction) ∧
    Numeral.Denotes 10 (whole ++ fraction) w ∧ d = w / 10 ^ fraction.length

/-- The characters of a decimal numeral. -/
def decimalChars : List Char := "0123456789.".toList

namespace Numeral

variable {cs ds : List Char} {c : Char} {n d acc : ℕ}

theorem IsDigit.toNat_eq (h : IsDigit 10 c d) : c.toNat = 48 + d ∧ d < 10 := by
  rw [← digitValue?_eq_some_iff] at h
  unfold digitValue? at h
  grind

theorem IsDigit.isDigit (h : IsDigit 10 c d) : c.isDigit = true := by
  obtain ⟨hc, hd⟩ := h.toNat_eq
  show (decide (48 ≤ c.toNat) && decide (c.toNat ≤ 57)) = true
  simp only [hc, Bool.and_eq_true, decide_eq_true_eq]
  omega

theorem IsDigit.mem_decimalChars (h : IsDigit 10 c d) : c ∈ decimalChars := by
  have htable : ∀ d < 10, Char.ofNat (48 + d) ∈ decimalChars := by decide
  obtain ⟨hc, hd⟩ := h.toNat_eq
  rw [← Char.ofNat_toNat c, hc]
  exact htable d hd

theorem foldl_eq_of_forall₂ {vs : List ℕ} (h : List.Forall₂ (IsDigit 10) cs vs) (acc : ℕ) :
    cs.foldl (fun n c => n * 10 + (c.toNat - 48)) acc =
      acc * 10 ^ vs.length + Nat.ofDigits 10 vs.reverse := by
  induction h generalizing acc with
  | nil => simp
  | @cons c v cs vs hc _ ih =>
    rw [List.foldl_cons, ih, hc.toNat_eq.1, Nat.add_sub_cancel_left, List.reverse_cons,
      Nat.ofDigits_append, Nat.ofDigits_singleton, List.length_reverse, List.length_cons]
    ring

theorem Denotes.valueOf_eq (h : Denotes 10 cs n) : Decimal.valueOf cs = n := by
  obtain ⟨-, vs, hvs, rfl⟩ := h
  rw [Decimal.valueOf, foldl_eq_of_forall₂ hvs, Nat.zero_mul, Nat.zero_add]

theorem Denotes.isDigit_of_mem (h : Denotes 10 cs n) : ∀ c ∈ cs, c.isDigit = true :=
  fun c hc =>
    have ⟨_, hd⟩ := h.exists_isDigit c hc
    hd.isDigit

end Numeral

namespace DenotesDecimal

variable {cs unit : List Char} {d : ℚ} {size : ℕ}

theorem ne_nil (h : DenotesDecimal cs d) : cs ≠ [] := by
  obtain ⟨whole, fraction, w, hcs, hdenotes, -⟩ := h
  rcases hcs with ⟨rfl, rfl⟩ | rfl
  · simpa using hdenotes.1
  · simp

theorem mem_decimalChars (h : DenotesDecimal cs d) : ∀ c ∈ cs, c ∈ decimalChars := by
  obtain ⟨whole, fraction, w, hcs, hdenotes, -⟩ := h
  have hdigit : ∀ c ∈ whole ++ fraction, c ∈ decimalChars := fun c hc =>
    have ⟨_, hd⟩ := hdenotes.exists_isDigit c hc
    hd.mem_decimalChars
  intro c hc
  rcases hcs with ⟨rfl, rfl⟩ | rfl
  · exact hdigit c (List.mem_append_left _ hc)
  · rcases List.mem_append.1 hc with hwhole | hrest
    · exact hdigit c (List.mem_append_left _ hwhole)
    · rcases List.mem_cons.1 hrest with rfl | hfraction
      · decide
      · exact hdigit c (List.mem_append_right _ hfraction)

/-- The reader finds the point where the numeral has it. -/
theorem takeWhile_and_readFraction {whole fraction : List Char}
    (hdigit : ∀ c ∈ whole ++ fraction, c.isDigit = true)
    (hcs : fraction = [] ∧ cs = whole ∨ cs = whole ++ '.' :: fraction) :
    cs.takeWhile Char.isDigit = whole ∧
      Decimal.readFraction (cs.dropWhile Char.isDigit) = (fraction, []) := by
  have hwhole : ∀ c ∈ whole, c.isDigit = true :=
    fun c hc => hdigit c (List.mem_append_left _ hc)
  have hfraction : ∀ c ∈ fraction, c.isDigit = true :=
    fun c hc => hdigit c (List.mem_append_right _ hc)
  rcases hcs with ⟨rfl, rfl⟩ | rfl
  · rw [List.takeWhile_eq_self_iff.2 hwhole, List.dropWhile_eq_nil_iff.2 hwhole]
    exact ⟨rfl, rfl⟩
  · rw [List.takeWhile_append_of_pos hwhole, List.dropWhile_append_of_pos hwhole]
    exact ⟨List.append_nil whole, congrArg₂ Prod.mk (List.takeWhile_eq_self_iff.2 hfraction)
      (List.dropWhile_eq_nil_iff.2 hfraction)⟩

/-- Reading a numeral loses nothing. -/
theorem read?_eq (h : DenotesDecimal cs d) :
    ∃ decimal, Decimal.read? cs = some decimal ∧ decimal.value = d := by
  obtain ⟨whole, fraction, w, hcs, hdenotes, rfl⟩ := h
  obtain ⟨hwhole, hfraction⟩ := takeWhile_and_readFraction hdenotes.isDigit_of_mem hcs
  have hsome : ¬(whole.isEmpty = true ∧ fraction.isEmpty = true) := fun hempty =>
    hdenotes.1 (List.append_eq_nil_iff.2
      ⟨List.isEmpty_iff.1 hempty.1, List.isEmpty_iff.1 hempty.2⟩)
  refine ⟨⟨w, -fraction.length⟩, ?_, ?_⟩
  · simp only [Decimal.read?, hwhole, hfraction]
    rw [if_neg hsome, hdenotes.valueOf_eq]
    simp [Decimal.readExponent?]
  · rw [Decimal.value, zpow_neg, zpow_natCast, div_eq_mul_inv]

/-- A decimal numeral has no sign before it, and is no name of a number. -/
theorem binary64_read?_eq (h : DenotesDecimal cs d) :
    Binary64.read? cs = (Decimal.read? cs).map (Binary64.ofDecimal false) := by
  obtain ⟨c, rest, rfl⟩ := List.exists_cons_of_ne_nil h.ne_nil
  have htable : decimalChars.all fun c =>
      c ≠ '+' ∧ c ≠ '-' ∧ c.toLower ≠ 'i' ∧ c.toLower ≠ 'n' := by decide
  obtain ⟨hplus, hminus, hi, hn⟩ := of_decide_eq_true
    (List.all_eq_true.1 htable c (h.mem_decimalChars c List.mem_cons_self))
  have hsign : Decimal.readSign (c :: rest) = (false, c :: rest) := by
    unfold Decimal.readSign
    split <;> simp_all
  have hword {word : List Char} (hfirst : some c.toLower ≠ word.head?) :
      Binary64.lower (c :: rest) ≠ word := fun heq => hfirst (heq ▸ rfl)
  have hinf : some c.toLower ≠ "inf".toList.head? := fun heq => hi (Option.some.inj heq)
  have hinfinity : some c.toLower ≠ "infinity".toList.head? := fun heq => hi (Option.some.inj heq)
  have hnan : some c.toLower ≠ "nan".toList.head? := fun heq => hn (Option.some.inj heq)
  simp only [Binary64.read?, hsign]
  rw [if_neg (not_or.2 ⟨hword hinf, hword hinfinity⟩), if_neg (hword hnan)]

end DenotesDecimal

/-! ## Units -/

section

variable {cs unit : List Char} {a : Char} {size : ℕ}

theorem stripEnd?_of_mem (ha : a ∈ unit) (hcs : a ∉ cs) : Text.stripEnd? unit cs = none := by
  refine if_neg fun hsuffix => hcs ?_
  exact (List.isSuffixOf_iff_suffix.1 hsuffix).subset ha

theorem stripEnd?_cons_append (ha : a ∉ cs) : Text.stripEnd? (a :: unit) (cs ++ unit) = none := by
  refine if_neg fun hsuffix => ha ?_
  obtain ⟨front, hfront⟩ := List.isSuffixOf_iff_suffix.1 hsuffix
  rw [← List.singleton_append, ← List.append_assoc] at hfront
  rw [← List.append_cancel_right hfront]
  exact List.mem_append_right _ List.mem_cons_self

theorem splitUnit?_eq_none (hz : 'z' ∉ cs) : splitUnit? cs = none := by
  refine List.findSome?_eq_none_iff.2 fun unit hunit => ?_
  have htable : ∀ unit ∈ frequencyUnits, 'z' ∈ unit.1 := by decide
  exact congrArg (Option.map _) (stripEnd?_of_mem (htable unit hunit) hz)

/-- The unit behind a numeral is found, as the shortest one comes last. -/
theorem splitUnit?_append (hunit : (unit, size) ∈ frequencyUnits)
    (hcs : ∀ c ∈ cs, c ∈ decimalChars) : splitUnit? (cs ++ unit) = some (cs, size) := by
  have hnot {a : Char} (ha : a ∉ decimalChars) : a ∉ cs := fun h => ha (hcs a h)
  have hshort {a : Char} (ha : a ∉ decimalChars) :
      Text.stripEnd? [a, 'H', 'z'] (cs ++ ['H', 'z']) = none := stripEnd?_cons_append (hnot ha)
  have hother {a b : Char} (ha : a ∉ decimalChars) (hab : a ≠ b) :
      Text.stripEnd? [a, 'H', 'z'] (cs ++ [b, 'H', 'z']) = none := by
    rw [List.append_cons]
    refine stripEnd?_cons_append (List.not_mem_append (hnot ha) ?_)
    exact mt List.mem_singleton.1 hab
  unfold splitUnit?
  simp only [frequencyUnits, List.mem_cons, Prod.mk.injEq, List.not_mem_nil, or_false] at hunit
  rcases hunit with ⟨rfl, rfl⟩ | ⟨rfl, rfl⟩ | ⟨rfl, rfl⟩ | ⟨rfl, rfl⟩
  · simp only [frequencyUnits, List.findSome?_cons, Text.stripEnd?_append, Option.map_some]
  · have hmega := hother (a := 'M') (b := 'K') (by decide) (by decide)
    simp only [frequencyUnits, List.findSome?_cons, hmega, Text.stripEnd?_append, Option.map_some,
      Option.map_none]
  · have hmega := hother (a := 'M') (b := 'k') (by decide) (by decide)
    have hkilo := hother (a := 'K') (b := 'k') (by decide) (by decide)
    simp only [frequencyUnits, List.findSome?_cons, hmega, hkilo, Text.stripEnd?_append,
      Option.map_some, Option.map_none]
  · have hmega := hshort (a := 'M') (by decide)
    have hkilo := hshort (a := 'K') (by decide)
    have hkilo' := hshort (a := 'k') (by decide)
    simp only [frequencyUnits, List.findSome?_cons, hmega, hkilo, hkilo', Text.stripEnd?_append,
      Option.map_some, Option.map_none]

theorem size_cases (hunit : (unit, size) ∈ frequencyUnits) :
    size = 1 ∨ size = 1000 ∨ size = 1000000 := by
  have htable : ∀ unit ∈ frequencyUnits, unit.2 = 1 ∨ unit.2 = 1000 ∨ unit.2 = 1000000 := by decide
  exact htable _ hunit

end

/-! ## Rounding twice -/

/-- `d` times the size of a unit is the whole number `F`. -/
structure Counts (d : ℚ) (size F : ℕ) : Prop where
  size_eq : size = 1 ∨ size = 1000 ∨ size = 1000000
  value : d * size = F
  pos : 0 < F
  le : F ≤ 2 ^ 53

/-- `f` is `d` rounded, and `p` is `f` times `size` rounded. -/
structure Rounds (d : ℚ) (size : ℕ) (f p : ℚ) : Prop where
  numeral : Binary64.IsNearest d f
  product : Binary64.IsNearest (f * size) p

namespace Counts

open Binary64

variable {d f p : ℚ} {size F : ℕ} (h : Counts d size F) (hrounds : Rounds d size f p)
include h

theorem one_le_size : (1 : ℚ) ≤ size := by
  rcases h.size_eq with rfl | rfl | rfl <;> norm_num

theorem size_le : (size : ℚ) ≤ 2 ^ 20 := by
  rcases h.size_eq with rfl | rfl | rfl <;> norm_num

theorem numeral_pos : 0 < d := by
  have hpos : (0 : ℚ) < F := mod_cast h.pos
  exact pos_of_mul_pos_left (h.value ▸ hpos) size.cast_nonneg

/-- The numeral is in the range in which numbers have 53 bits. -/
theorem lowest_le : 2 ^ (-1022 : ℤ) ≤ d := by
  have hone : (1 : ℚ) ≤ F := mod_cast h.pos
  calc (2 : ℚ) ^ (-1022 : ℤ) ≤ 2 ^ (-20 : ℤ) := zpow_le_zpow_right₀ one_le_two (by norm_num)
    _ = 1 / 2 ^ 20 := by norm_num
    _ ≤ d := by
      rw [div_le_iff₀ (by positivity)]
      calc (1 : ℚ) ≤ d * size := h.value ▸ hone
        _ ≤ d * 2 ^ 20 := mul_le_mul_of_nonneg_left h.size_le h.numeral_pos.le

theorem numeral_le : d ≤ 2 ^ 53 := by
  have hle : (F : ℚ) ≤ 2 ^ 53 := mod_cast h.le
  calc d ≤ d * size := le_mul_of_one_le_right h.numeral_pos.le h.one_le_size
    _ = F := h.value
    _ ≤ 2 ^ 53 := hle

theorem numeral_lt : d < 2 ^ 1023 :=
  h.numeral_le.trans_lt (pow_lt_pow_right₀ one_lt_two (by norm_num))

theorem rounded_pos (hf : IsNearest d f) : 0 < f := by
  have hleast := hf.le_of_le (isNumber_mul_zpow (m := 1) (e := -1022) (by norm_num) (by norm_num)
    (by norm_num)) (by rw [Nat.cast_one, one_mul]; exact h.lowest_le)
  exact lt_of_lt_of_le (mul_pos (by norm_num) (zpow_pos two_pos _)) hleast

theorem product_lt (hf : IsNearest d f) : f * size < 2 ^ 1023 := by
  have hlargest : IsNumber ((2 ^ 53 : ℕ) : ℚ) := isNumber_natCast le_rfl
  rw [Nat.cast_pow, Nat.cast_ofNat] at hlargest
  have hle := hf.ge_of_ge hlargest h.numeral_le
  calc f * size ≤ 2 ^ 53 * 2 ^ 20 := by
        exact mul_le_mul hle h.size_le size.cast_nonneg (by positivity)
    _ = 2 ^ 73 := by rw [← pow_add]
    _ < 2 ^ 1023 := pow_lt_pow_right₀ one_lt_two (by norm_num)

include hrounds

/-- Rounding the numeral moves the product by less than one part in `2 ^ 53`. -/
theorem abs_product_sub_lt : |f * size - F| < F / 2 ^ 53 := by
  have hsize : (0 : ℚ) < size := one_pos.trans_le h.one_le_size
  have hdist : f * size - F = (f - d) * size := by rw [sub_mul, h.value]
  rw [hdist, abs_mul, abs_of_pos hsize]
  by_cases hexact : f = d
  · rw [hexact, sub_self, abs_zero, zero_mul]
    have hpos : (0 : ℚ) < F := mod_cast h.pos
    positivity
  · have herror := hrounds.numeral.abs_sub_lt h.lowest_le h.numeral_lt hexact
    calc |f - d| * size < d / 2 ^ 53 * size := mul_lt_mul_of_pos_right herror hsize
      _ = F / 2 ^ 53 := by rw [div_mul_eq_mul_div, h.value]

theorem abs_product_sub_lt_one : |f * size - F| < 1 := by
  have hle : (F : ℚ) ≤ 2 ^ 53 := mod_cast h.le
  exact (h.abs_product_sub_lt hrounds).trans_le ((div_le_one (by positivity)).2 hle)

theorem sub_one_le : (F : ℚ) - 1 ≤ p := by
  have hnear := abs_lt.1 (h.abs_product_sub_lt_one hrounds)
  have hnumber : IsNumber ((F - 1 : ℕ) : ℚ) := isNumber_natCast (by have := h.le; omega)
  rw [Nat.cast_pred h.pos] at hnumber
  exact hrounds.product.le_of_le hnumber (by linarith)

theorem lt_add_two : p < F + 2 := by
  have hnear := h.abs_product_sub_lt_one hrounds
  have hwhole := hrounds.product.le F (isNumber_natCast h.le)
  rw [abs_sub_comm] at hnear
  have hupper := le_abs_self (p - f * size)
  have hupper' := neg_abs_le (F - f * size : ℚ)
  linarith

/-- Below `2 ^ 52` the halves are numbers of the format, and the product is not above the next
half. -/
theorem lt_add_one (hlt : F < 2 ^ 52) : p < F + 1 := by
  have hhalf : IsNumber ((2 * F + 1 : ℕ) * 2 ^ (-1 : ℤ)) :=
    isNumber_mul_zpow (by omega) (by decide) (by decide)
  have hvalue : ((2 * F + 1 : ℕ) * 2 ^ (-1 : ℤ) : ℚ) = F + 1 / 2 := by
    push_cast
    rw [zpow_neg_one]
    ring
  rw [hvalue] at hhalf
  have herror : |f * size - F| < 1 / 2 := by
    refine (h.abs_product_sub_lt hrounds).trans_le ?_
    have hle : (F : ℚ) ≤ 2 ^ 52 := mod_cast hlt.le
    rw [div_le_iff₀ (by positivity)]
    linarith
  have hle := hrounds.product.ge_of_ge hhalf (by linarith [(abs_lt.1 herror).2])
  linarith

theorem le_of_le (hle : d ≤ f) : (F : ℚ) ≤ p := by
  refine hrounds.product.le_of_le (isNumber_natCast h.le) ?_
  rw [← h.value]
  exact mul_le_mul_of_nonneg_right hle size.cast_nonneg

/-- A numeral that is a number of the format is not rounded, and neither is the product. -/
theorem eq_of_isNumber (hd : IsNumber d) : p = F := by
  have hf := hrounds.numeral.eq_of_isNumber hd
  have hp := hrounds.product
  rw [hf, h.value] at hp
  exact hp.eq_of_isNumber (isNumber_natCast h.le)

/-- The numerals of one cycle are the least ones of their units, and none is cut to zero. -/
theorem one_le (hone : F = 1) : 1 ≤ p := by
  have hword : ∀ size : ℕ, size = 1 ∨ size = 1000 ∨ size = 1000000 →
      ((roundRatio false 1 size).mulNat size).toWord = 1 := by
    rintro _ (rfl | rfl | rfl) <;> decide +kernel
  have hsize : 0 < size := Nat.cast_pos.1 (one_pos.trans_le h.one_le_size)
  have hvalue : ((1 : ℕ) / size : ℚ) = d := by
    rw [div_eq_iff (Nat.cast_pos.2 hsize).ne', h.value, hone]
  obtain ⟨f', hf', hnumeral⟩ := exists_isNearest_roundRatio Nat.one_pos hsize
    (hvalue ▸ h.numeral_lt)
  rw [hvalue] at hnumeral
  obtain rfl := hnumeral.unique hrounds.numeral
  obtain ⟨p', hp', hproduct⟩ := exists_isNearest_mulNat hf' (h.rounded_pos hnumeral) hsize
    (h.product_lt hnumeral)
  obtain rfl := hproduct.unique hrounds.product
  have hfloor := hword size h.size_eq
  rw [toWord_eq hp'] at hfloor
  by_contra! hlt
  rw [Nat.floor_eq_zero.2 hlt] at hfloor
  exact absurd hfloor (by decide)

omit hrounds in
/-- The sixth binary place is the last one that a numeral needs for a whole number of cycles. -/
theorem isNumber_of_places {j : ℕ} (hj : 64 * d = j) : IsNumber d := by
  have hdj : d = j * 2 ^ (-6 : ℤ) := by
    have hpow : (2 : ℚ) ^ (-6 : ℤ) = 1 / 64 := by norm_num
    rw [hpow, ← hj]
    ring
  have hvalue := h.value
  have hle : (F : ℚ) ≤ 2 ^ 53 := mod_cast h.le
  have hpos := h.numeral_pos
  by_cases hsize : size = 1
  · rw [hsize, Nat.cast_one, mul_one] at hvalue
    exact hvalue ▸ isNumber_natCast h.le
  · have hthousand : (1000 : ℚ) ≤ size := by
      rcases h.size_eq with rfl | rfl | rfl
      · exact absurd rfl hsize
      · norm_num
      · norm_num
    have hbits : (j : ℚ) ≤ (2 ^ 53 : ℕ) := by
      push_cast
      nlinarith
    rw [hdj]
    exact isNumber_mul_zpow (Nat.cast_le.1 hbits) (by decide) (by decide)

end Counts

/-! ## Frequencies -/

section

variable {cs unit : List Char} {d : ℚ} {size F : ℕ}

/-- Frequencies are refused for being zero only. -/
theorem readFrequency_of_readCycles {text : List Char} {n : ℕ} (htrim : Text.trim text = text)
    (hread : readCycles text = .ok (UInt64.ofNat n)) (hpos : 0 < n) (hlt : n < 2 ^ 64) :
    readFrequency text = .ok (UInt64.ofNat n) := by
  have hword : (UInt64.ofNat n).toNat = n := UInt64.toNat_ofNat_of_lt' hlt
  have hne : UInt64.ofNat n ≠ 0 := fun hzero => by
    rw [hzero] at hword
    exact hpos.ne hword
  simp only [readFrequency, htrim, hread]
  rw [if_neg hne]

theorem readFrequency_padded (hpos : 0 < F) (hlt : F < 2 ^ 64) (width : ℕ) :
    readFrequency (Numeral.padded 10 width F) = .ok (UInt64.ofNat F) := by
  have hdenotes : Numeral.Denotes 10 (Numeral.padded 10 width F) F :=
    Numeral.denotes_padded (by decide) (by decide) width
  have htrim := (Text.stripped_self hdenotes.isBlank_of_mem).trim_eq
  have hz : 'z' ∉ Numeral.padded 10 width F := fun hmem =>
    absurd (hdenotes.isDigit_of_mem 'z' hmem) (by decide)
  refine readFrequency_of_readCycles htrim ?_ hpos hlt
  unfold readCycles
  rw [splitUnit?_eq_none hz]
  refine (readWord_eq_ok_iff (by decide)).2 ?_
  rw [UInt64.toNat_ofNat_of_lt' hlt]
  exact ⟨_, .inl rfl, hdenotes⟩

theorem DenotesDecimal.isBlank_of_mem (hd : DenotesDecimal cs d) :
    ∀ c ∈ cs, Text.isBlank c = false := by
  have htable : decimalChars.all (Text.isBlank · = false) = true := by decide
  exact fun c hc => of_decide_eq_true (List.all_eq_true.1 htable c (hd.mem_decimalChars c hc))

theorem trim_append_unit (hd : DenotesDecimal cs d) (hunit : (unit, size) ∈ frequencyUnits) :
    Text.trim (cs ++ unit) = cs ++ unit := by
  have htable : ∀ unit ∈ frequencyUnits, unit.1.all (Text.isBlank · = false) = true := by decide
  refine (Text.stripped_self fun c hc => ?_).trim_eq
  exact (List.mem_append.1 hc).elim (hd.isBlank_of_mem c) fun hc =>
    of_decide_eq_true (List.all_eq_true.1 (htable _ hunit) c hc)

theorem readCycles_append (hd : DenotesDecimal cs d) (hunit : (unit, size) ∈ frequencyUnits) :
    ∃ decimal : Decimal, decimal.value = d ∧
      readCycles (cs ++ unit) = .ok ((Binary64.ofDecimal false decimal).mulNat size).toWord := by
  obtain ⟨decimal, hread, hvalue⟩ := hd.read?_eq
  refine ⟨decimal, hvalue, ?_⟩
  have htrim := (Text.stripped_self hd.isBlank_of_mem).trim_eq
  unfold readCycles
  rw [splitUnit?_append hunit hd.mem_decimalChars]
  simp only [readScaled, htrim, hd.binary64_read?_eq, hread, Option.map_some]

theorem Counts.floor_bounds {f p : ℚ} (h : Counts d size F) (hrounds : Rounds d size f p) :
    F ≤ ⌊p⌋₊ + 1 ∧ ⌊p⌋₊ ≤ F + 1 ∧ 0 < ⌊p⌋₊ := by
  have hlow := h.sub_one_le hrounds
  have hhigh := h.lt_add_two hrounds
  have hF := h.pos
  rw [← Nat.cast_pred hF] at hlow
  have hfloor : F - 1 ≤ ⌊p⌋₊ := Nat.le_floor hlow
  have hfloor' : ⌊p⌋₊ < F + 2 := by
    rw [Nat.floor_lt (le_trans (Nat.cast_nonneg _) hlow)]
    push_cast
    exact hhigh
  refine ⟨by omega, by omega, ?_⟩
  rcases Nat.lt_or_ge 1 F with hlt | hle
  · omega
  · exact Nat.floor_pos.2 (h.one_le hrounds (by omega))

/-- A numeral of `F` cycles behind which a unit stands is rounded twice, and cut. -/
theorem exists_readFrequency_append (hd : DenotesDecimal cs d)
    (hunit : (unit, size) ∈ frequencyUnits) (h : Counts d size F) :
    ∃ f p, Rounds d size f p ∧ readFrequency (cs ++ unit) = .ok (UInt64.ofNat ⌊p⌋₊) := by
  obtain ⟨decimal, hvalue, hcycles⟩ := readCycles_append hd hunit
  obtain ⟨f, hf, hnumeral⟩ := Binary64.exists_isNearest_ofDecimal (d := decimal)
    (by rw [hvalue]; exact h.lowest_le) (by rw [hvalue]; exact h.numeral_lt)
  rw [hvalue] at hnumeral
  have hsize : 0 < size := Nat.cast_pos.1 (one_pos.trans_le h.one_le_size)
  obtain ⟨p, hp, hproduct⟩ := Binary64.exists_isNearest_mulNat hf (h.rounded_pos hnumeral) hsize
    (h.product_lt hnumeral)
  obtain ⟨-, hhigh, hpos⟩ := h.floor_bounds ⟨hnumeral, hproduct⟩
  have hword : (UInt64.size - 1) = 2 ^ 64 - 1 := rfl
  have hle := h.le
  rw [Binary64.toWord_eq hp, min_eq_left (by omega)] at hcycles
  exact ⟨f, p, ⟨hnumeral, hproduct⟩,
    readFrequency_of_readCycles (trim_append_unit hd hunit) hcycles hpos (by omega)⟩

/-- A decimal numeral `d` with a unit, of `F` cycles in a second, up to `2 ^ 53`. The numeral is
rounded to `f` and the product to `p`, and the whole part of `p` is what is read : `F`, or one cycle
more or less, where the plain numeral of `F` is read as `F`. It is `F` exactly if `p` is not below
`F` and below the next whole number. Below `2 ^ 52` it is never more than `F`, and is `F` wherever
the numeral is not rounded down. A numeral whose value has up to six binary places is not rounded at
all. -/
theorem readFrequency_unit (hd : DenotesDecimal cs d) (hunit : (unit, size) ∈ frequencyUnits)
    (hF : d * size = F) (hpos : 0 < F) (hle : F ≤ 2 ^ 53) :
    (∀ width, readFrequency (Numeral.padded 10 width F) = .ok (UInt64.ofNat F)) ∧
      ∃ f p, Binary64.IsNearest d f ∧ Binary64.IsNearest (f * size) p ∧
        readFrequency (cs ++ unit) = .ok (UInt64.ofNat ⌊p⌋₊) ∧
        F ≤ ⌊p⌋₊ + 1 ∧ ⌊p⌋₊ ≤ F + 1 ∧
        (readFrequency (cs ++ unit) = .ok (UInt64.ofNat F) ↔ F ≤ p ∧ p < F + 1) ∧
        (F < 2 ^ 52 → ⌊p⌋₊ ≤ F ∧
          (d ≤ f → readFrequency (cs ++ unit) = .ok (UInt64.ofNat F))) ∧
        ∀ j : ℕ, 64 * d = j → readFrequency (cs ++ unit) = .ok (UInt64.ofNat F) := by
  have h : Counts d size F := ⟨size_cases hunit, hF, hpos, hle⟩
  obtain ⟨f, p, hrounds, hread⟩ := exists_readFrequency_append hd hunit h
  obtain ⟨hlow, hhigh, hfloor⟩ := h.floor_bounds hrounds
  have hp : 0 ≤ p := zero_le_one.trans (Nat.floor_pos.1 hfloor)
  have hiff : readFrequency (cs ++ unit) = .ok (UInt64.ofNat F) ↔ F ≤ p ∧ p < F + 1 := by
    rw [hread, ← Nat.floor_eq_iff hp]
    refine ⟨fun heq => ?_, fun heq => by rw [heq]⟩
    have hwords := congrArg UInt64.toNat (Except.ok.inj heq)
    have hsize : UInt64.size = 2 ^ 64 := rfl
    rwa [UInt64.toNat_ofNat_of_lt' (by omega), UInt64.toNat_ofNat_of_lt' (by omega)] at hwords
  refine ⟨readFrequency_padded hpos (by omega), f, p, hrounds.numeral, hrounds.product, hread, hlow,
    hhigh, hiff, fun hlt => ⟨?_, fun hup => ?_⟩, fun j hj => ?_⟩
  · have hbelow := h.lt_add_one hrounds hlt
    exact Nat.lt_succ_iff.1 ((Nat.floor_lt hp).2 (by push_cast; exact hbelow))
  · exact hiff.2 ⟨h.le_of_le hrounds hup, h.lt_add_one hrounds hlt⟩
  · have hexact := h.eq_of_isNumber hrounds (h.isNumber_of_places hj)
    exact hiff.2 ⟨hexact.ge, hexact ▸ lt_add_one p⟩

theorem denotesDecimal_of_read? (whole fraction : List Char) {w : ℕ}
    (h : Numeral.read? 10 (w + 1) (whole ++ fraction) = some w) :
    DenotesDecimal (whole ++ '.' :: fraction) (w / 10 ^ fraction.length) :=
  ⟨whole, fraction, w, .inr rfl,
    ((Numeral.read?_eq_some_iff (by decide) w.succ_pos).1 h).1, rfl⟩

/-- Two and a half kilohertz, a numeral with one binary place. -/
theorem readFrequency_unit_half :
    DenotesDecimal "2.5".toList (25 / 10) ∧ ("kHz".toList, 1000) ∈ frequencyUnits ∧
      (25 / 10 * (1000 : ℕ) : ℚ) = (2500 : ℕ) ∧
      readFrequency (Numeral.padded 10 0 2500) = .ok 2500 ∧
      readFrequency ("2.5".toList ++ "kHz".toList) = .ok 2500 := by
  have hd : DenotesDecimal "2.5".toList ((25 : ℕ) / 10 ^ 1) :=
    denotesDecimal_of_read? "2".toList "5".toList (by decide)
  have hunit : ("kHz".toList, 1000) ∈ frequencyUnits := by decide
  have hF : (25 / 10 * (1000 : ℕ) : ℚ) = (2500 : ℕ) := by norm_num
  rw [pow_one, Nat.cast_ofNat] at hd
  obtain ⟨hplain, f, p, -, -, -, -, -, -, -, hplaces⟩ :=
    readFrequency_unit hd hunit hF (by decide) (by decide)
  exact ⟨hd, hunit, hF, hplain 0, hplaces 160 (by norm_num)⟩

/-- One thousand and one cycles, in kilohertz : the numeral is rounded down, and the product to the
number of the format below the whole number. -/
theorem readFrequency_unit_cut :
    DenotesDecimal "1.001".toList (1001 / 1000) ∧ ("kHz".toList, 1000) ∈ frequencyUnits ∧
      (1001 / 1000 * (1000 : ℕ) : ℚ) = (1001 : ℕ) ∧
      readFrequency (Numeral.padded 10 0 1001) = .ok 1001 ∧
      readFrequency ("1.001".toList ++ "kHz".toList) = .ok 1000 := by
  have hd : DenotesDecimal "1.001".toList ((1001 : ℕ) / 10 ^ 3) :=
    denotesDecimal_of_read? "1".toList "001".toList (by decide)
  have hvalue : ((1001 : ℕ) / 10 ^ 3 : ℚ) = 1001 / 1000 := by norm_num
  exact ⟨hvalue ▸ hd, by decide, by norm_num, readFrequency_padded (by decide) (by decide) 0,
    by decide +kernel⟩

end

end Chip8
