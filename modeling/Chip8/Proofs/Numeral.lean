import Chip8.Text.Numeral

/-!
# Numerals and the numbers they spell

`Numeral.Spells` says what the numeral of a number looks like : which digits it may have, how many
of them at least, that it reads back as the number under every limit above it, and that no zero
stands before it which the width does not ask for. `Numeral.spells_padded` is this of every numeral
that is written.

Two hex digits spell a byte. `Numeral.hexBytes?` reads a text of such pairs, and gives back the
bytes whose digits were written behind each other (`Numeral.hexBytes?_flatMap`).
-/

namespace Chip8

namespace Numeral

variable {base width limit n d : Nat}

/-! ## Digits -/

theorem toNat_digitChar (h : d < 16) :
    (digitChar d).toNat = if d < 10 then 48 + d else 55 + d := by
  revert d
  decide

theorem digitValue?_digitChar (hbase : base ≤ 16) (h : d < base) :
    digitValue? base (digitChar d) = some d := by
  have hchar := toNat_digitChar (Nat.lt_of_lt_of_le h hbase)
  unfold digitValue?
  simp only [hchar]
  by_cases hd : d < 10
  · rw [if_pos hd, if_pos (show 48 ≤ 48 + d ∧ 48 + d ≤ 57 by omega), Nat.add_sub_cancel_left,
      if_pos h]
  · rw [if_neg hd, if_neg (show ¬(48 ≤ 55 + d ∧ 55 + d ≤ 57) by omega),
      if_pos (show 65 ≤ 55 + d ∧ 55 + d ≤ 70 by omega), Nat.add_sub_cancel_left, if_pos h]

/-- The digits of the largest base. -/
def hexDigits : List Char := "0123456789ABCDEF".toList

theorem digitChar_mem (hbase : base ≤ 16) (h : d < base) : digitChar d ∈ hexDigits.take base := by
  have hall : ∀ d < 16, hexDigits[d]? = some (digitChar d) := by decide
  have hget : (hexDigits.take base)[d]? = some (digitChar d) := by
    rw [List.getElem?_take_of_lt h]
    exact hall d (Nat.lt_of_lt_of_le h hbase)
  exact List.mem_of_getElem? hget

/-! ## The last digit and the rest -/

theorem digits_mem (hb : 2 ≤ base) (hbase : base ≤ 16) :
    ∀ c ∈ digits base n, c ∈ hexDigits.take base := by
  induction n using Nat.strongRecOn with
  | ind n ih =>
    intro c hc
    rcases Nat.lt_or_ge n base with hlt | hge
    · rw [digits_of_lt hlt, List.mem_singleton] at hc
      rw [hc]
      exact digitChar_mem hbase hlt
    · rw [digits_of_le hb hge, List.mem_append, List.mem_singleton] at hc
      rcases hc with hc | rfl
      · exact ih _ (Nat.div_lt_self (by omega) (by omega)) c hc
      · exact digitChar_mem hbase (Nat.mod_lt _ (by omega))

theorem isDigit_of_mem_digits : ∀ c ∈ digits 10 n, c.isDigit = true := by
  have hten : (hexDigits.take 10).all Char.isDigit = true := by decide
  exact fun c hc => List.all_eq_true.1 hten c (digits_mem (by decide) (by decide) c hc)

theorem readFrom?_digits (hb : 2 ≤ base) (hbase : base ≤ 16) (hn : n < limit) :
    readFrom? base limit 0 (digits base n) = some n := by
  induction n using Nat.strongRecOn with
  | ind n ih =>
    rcases Nat.lt_or_ge n base with hlt | hge
    · rw [digits_of_lt hlt]
      simp [readFrom?, digitValue?_digitChar hbase hlt, hn]
    · have hdiv : n / base < n := Nat.div_lt_self (by omega) (by omega)
      have hmod : n % base < base := Nat.mod_lt _ (by omega)
      have hn' : n / base * base + n % base = n := by
        rw [Nat.mul_comm]
        exact Nat.div_add_mod n base
      rw [digits_of_le hb hge, readFrom?_append, ih _ hdiv (Nat.lt_trans hdiv hn)]
      simp [readFrom?, digitValue?_digitChar hbase hmod, hn', hn]

theorem head?_digits_ne (hb : 2 ≤ base) (hbase : base ≤ 16) (hn : 0 < n) :
    (digits base n).head? ≠ some '0' := by
  induction n using Nat.strongRecOn with
  | ind n ih =>
    rcases Nat.lt_or_ge n base with hlt | hge
    · have hnonzero : ∀ d < 16, 0 < d → some (digitChar d) ≠ some '0' := by decide
      rw [digits_of_lt hlt]
      exact hnonzero n (Nat.lt_of_lt_of_le hlt hbase) hn
    · have hdiv : n / base < n := Nat.div_lt_self (by omega) (by omega)
      have hhead := ih _ hdiv (Nat.div_pos hge (by omega))
      obtain ⟨c, cs, hdigits⟩ := List.exists_cons_of_length_pos (length_digits_pos base (n / base))
      rw [digits_of_le hb hge]
      rwa [hdigits] at hhead ⊢

/-! ## Numerals -/

/-- `cs` is the numeral of `n` in a base, with zeros before it only as far as the width asks for
them. -/
structure Spells (base width n : Nat) (cs : List Char) : Prop where
  digits : ∀ c ∈ cs, c ∈ hexDigits.take base
  wide : width ≤ cs.length
  value : ∀ limit, n < limit → read? base limit cs = some n
  shortest : width < cs.length → n ≠ 0 → cs.head? ≠ some '0'

theorem readFrom?_zeros (hbase : 0 < base) (hlimit : 0 < limit) (count : Nat) (cs : List Char) :
    readFrom? base limit 0 (List.replicate count '0' ++ cs) = readFrom? base limit 0 cs := by
  have hzero : digitValue? base '0' = some 0 := if_pos hbase
  induction count with
  | zero => rfl
  | succ count ih =>
    rw [List.replicate_succ, List.cons_append]
    simp only [readFrom?, hzero]
    rw [if_pos (by omega)]
    simpa using ih

theorem read?_of_ne_nil {cs : List Char} (h : cs ≠ []) :
    read? base limit cs = readFrom? base limit 0 cs := by
  cases cs with
  | nil => exact absurd rfl h
  | cons c cs => exact read?_cons base limit c cs

theorem padded_ne_nil : padded base width n ≠ [] := by
  have hpos := length_digits_pos base n
  refine List.ne_nil_of_length_pos ?_
  rw [padded, List.length_append]
  omega

/-- A numeral reads back as its number under every limit above it. -/
theorem read?_padded (hb : 2 ≤ base) (hbase : base ≤ 16) (hn : n < limit) :
    read? base limit (padded base width n) = some n := by
  rw [read?_of_ne_nil padded_ne_nil, padded, readFrom?_zeros (by omega) (by omega)]
  exact readFrom?_digits hb hbase hn

theorem spells_padded (hb : 2 ≤ base) (hbase : base ≤ 16) :
    Spells base width n (padded base width n) where
  digits c hc := by
    rcases List.mem_append.1 hc with hzero | hdigit
    · rw [(List.mem_replicate.1 hzero).2]
      exact digitChar_mem hbase (show 0 < base by omega)
    · exact digits_mem hb hbase c hdigit
  wide := le_length_padded base width n
  value _ := read?_padded hb hbase
  shortest hlong hn := by
    have hnone : width - (digits base n).length = 0 := by
      simp only [padded, List.length_append, List.length_replicate] at hlong
      omega
    rw [padded, hnone]
    exact head?_digits_ne hb hbase (Nat.pos_of_ne_zero hn)

/-- A numeral is the numeral of the quotient, and then the last digit. -/
theorem padded_succ (hb : 2 ≤ base) (hwidth : 0 < width) (n : Nat) :
    padded base (width + 1) n = padded base width (n / base) ++ [digitChar (n % base)] := by
  rcases Nat.lt_or_ge n base with hlt | hge
  · have hzero : digitChar 0 = '0' := rfl
    rw [Nat.div_eq_of_lt hlt, Nat.mod_eq_of_lt hlt]
    simp only [padded, digits_of_lt hlt, digits_of_lt (show 0 < base by omega), hzero,
      List.length_singleton, Nat.add_sub_cancel]
    rw [← List.replicate_succ', Nat.sub_add_cancel hwidth]
  · simp only [padded, digits_of_le hb hge, List.length_append, List.length_singleton,
      Nat.add_sub_add_right, List.append_assoc]

theorem padded_one (h : n < base) : padded base 1 n = [digitChar n] := by
  simp [padded, digits_of_lt h]

/-! ## Bytes -/

/-- The bytes that pairs of hex digits spell. -/
def hexBytes? : List Char → Option (List UInt8)
  | [] => some []
  | [_] => none
  | first :: second :: cs => do
    let high ← digitValue? 16 first
    let low ← digitValue? 16 second
    let bytes ← hexBytes? cs
    return UInt8.ofNat (16 * high + low) :: bytes

theorem padded_byte (b : UInt8) :
    padded 16 2 b.toNat = [digitChar (b.toNat / 16), digitChar (b.toNat % 16)] := by
  have hb := b.toNat_lt
  rw [padded_succ (by omega) (by omega), padded_one (by omega)]
  rfl

theorem hexBytes?_append (b : UInt8) (cs : List Char) :
    hexBytes? (padded 16 2 b.toNat ++ cs) = (hexBytes? cs).map (b :: ·) := by
  have hb := b.toNat_lt
  have hbyte : UInt8.ofNat (16 * (b.toNat / 16) + b.toNat % 16) = b := by
    rw [Nat.div_add_mod]
    exact UInt8.ofNat_toNat
  rw [padded_byte]
  simp only [List.cons_append, List.nil_append, hexBytes?,
    digitValue?_digitChar (Nat.le_refl 16) (show b.toNat / 16 < 16 by omega),
    digitValue?_digitChar (Nat.le_refl 16) (show b.toNat % 16 < 16 by omega)]
  cases hexBytes? cs with
  | none => rfl
  | some bytes => exact congrArg (fun first => some (first :: bytes)) hbyte

/-- The digits of bytes behind each other read back as those bytes. -/
theorem hexBytes?_flatMap (bytes : List UInt8) :
    hexBytes? (bytes.flatMap fun b => padded 16 2 b.toNat) = some bytes := by
  induction bytes with
  | nil => rfl
  | cons b bytes ih => rw [List.flatMap_cons, hexBytes?_append, ih, Option.map_some]

end Numeral

end Chip8
