/-!
# Numerals

`Numeral.digits` writes a natural number in a base between 2 and 16, most significant
digit first and letters in upper case; `Numeral.padded` fills it up with zeros on the
left. `Numeral.read?` reads digits back, letters in either case, and refuses a value
that reaches a limit as soon as a digit takes it there.
-/

namespace Chip8

namespace Numeral

/-! ## Digits -/

/-- The character of a digit below sixteen. -/
def digitChar (d : Nat) : Char :=
  if d < 10 then Char.ofNat (48 + d) else Char.ofNat (55 + d)

/-- The value of a digit or letter, as far as `base` has such a digit. -/
def digitValue? (base : Nat) (c : Char) : Option Nat :=
  let n := c.toNat
  let d :=
    if 48 ≤ n ∧ n ≤ 57 then n - 48
    else if 65 ≤ n ∧ n ≤ 70 then n - 55
    else if 97 ≤ n ∧ n ≤ 102 then n - 87
    else base
  if d < base then some d else none

/-- The digits of `n`, at least one. -/
def digits (base n : Nat) : List Char :=
  if base < 2 ∨ n < base then [digitChar n]
  else digits base (n / base) ++ [digitChar (n % base)]
termination_by n
decreasing_by exact Nat.div_lt_self (by omega) (by omega)

/-- The digits of `n` with zeros before them, at least `width` characters. -/
def padded (base width n : Nat) : List Char :=
  let ds := digits base n
  List.replicate (width - ds.length) '0' ++ ds

theorem digits_of_lt {base n : Nat} (h : n < base) : digits base n = [digitChar n] := by
  rw [digits, if_pos (Or.inr h)]

theorem digits_of_le {base n : Nat} (hb : 2 ≤ base) (h : base ≤ n) :
    digits base n = digits base (n / base) ++ [digitChar (n % base)] := by
  rw [digits, if_neg (by omega)]

theorem length_digits_pos (base n : Nat) : 0 < (digits base n).length := by
  rw [digits]; split <;> simp

theorem le_length_padded (base width n : Nat) : width ≤ (padded base width n).length := by
  simp only [padded, List.length_append, List.length_replicate]; omega

/-- A number below a power of the base has no more digits than the exponent says. -/
theorem length_digits_le {base n k : Nat} (hb : 2 ≤ base) (h : n < Nat.pow base (k + 1)) :
    (digits base n).length ≤ k + 1 := by
  induction k generalizing n with
  | zero =>
    rw [Nat.pow_eq, Nat.pow_one] at h
    rw [digits_of_lt h]
    exact Nat.le_refl 1
  | succ k ih =>
    rcases Nat.lt_or_ge n base with hlt | hge
    · rw [digits_of_lt hlt]
      exact Nat.succ_le_succ (Nat.zero_le _)
    · rw [Nat.pow_eq, Nat.pow_succ'] at h
      have hdiv : n / base < Nat.pow base (k + 1) := Nat.div_lt_of_lt_mul h
      rw [digits_of_le hb hge, List.length_append]
      exact Nat.succ_le_succ (ih hdiv)

/-- A number that fits its width takes just the width. -/
theorem length_padded {base width n : Nat} (hb : 2 ≤ base) (hw : 0 < width)
    (h : n < Nat.pow base width) : (padded base width n).length = width := by
  obtain ⟨k, rfl⟩ := Nat.exists_eq_succ_of_ne_zero (Nat.ne_of_gt hw)
  have hle := length_digits_le hb h
  simp only [padded, List.length_append, List.length_replicate]
  omega

/-! ## Texts -/

/-- The decimal numeral of `n`. -/
def decimal (n : Nat) : String := String.ofList (digits 10 n)

/-- The hexadecimal numeral of `n`, at least `width` digits. -/
def hex (width n : Nat) : String := String.ofList (padded 16 width n)

/-- The binary numeral of `n`, at least `width` digits. -/
def binary (width n : Nat) : String := String.ofList (padded 2 width n)

/-- A hexadecimal numeral behind `0x`, at least `width` digits. -/
def prefixedHex (width n : Nat) : String := "0x" ++ hex width n

/-- The decimal numeral of an integer, a minus sign before a negative one. -/
def integer (n : Int) : String :=
  if n < 0 then "-" ++ decimal n.natAbs else decimal n.natAbs

/-! ## Reading -/

/-- Reads on from the value `acc`; every value on the way stays below `limit`. -/
def readFrom? (base limit acc : Nat) : List Char → Option Nat
  | [] => some acc
  | c :: cs =>
    match digitValue? base c with
    | none => none
    | some d =>
      if acc * base + d < limit then readFrom? base limit (acc * base + d) cs else none

/-- The value of one or more digits, below `limit`. -/
def read? (base limit : Nat) (cs : List Char) : Option Nat :=
  if cs.isEmpty then none else readFrom? base limit 0 cs

/-- One or more digits behind an optional plus sign. -/
def readSigned? (base limit : Nat) : List Char → Option Nat
  | '+' :: cs => read? base limit cs
  | cs => read? base limit cs

@[simp] theorem read?_nil (base limit : Nat) : read? base limit [] = none := rfl

theorem read?_cons (base limit : Nat) (c : Char) (cs : List Char) :
    read? base limit (c :: cs) = readFrom? base limit 0 (c :: cs) := rfl

theorem readFrom?_append (base limit acc : Nat) (cs ds : List Char) :
    readFrom? base limit acc (cs ++ ds) =
      (readFrom? base limit acc cs).bind (readFrom? base limit · ds) := by
  induction cs generalizing acc with
  | nil => rfl
  | cons c cs ih =>
    simp only [List.cons_append, readFrom?]
    cases digitValue? base c with
    | none => rfl
    | some d => by_cases h : acc * base + d < limit <;> simp [h, ih]

end Numeral

end Chip8
