import Chip8.Text.Decimal

/-!
# Binary floating point

The numbers of the format binary64 that reading a decimal numeral and multiplying by a
whole number need : a finite number is an integer times a power of two. `roundRatio` takes a
positive ratio to the nearest number of 53 significant bits, a tie to the even one, with
exponents down to -1074; what reaches `2 ^ 1024` becomes infinite.
-/

namespace Chip8

/-- A number of the format binary64. -/
inductive Binary64 where
  /-- No number. -/
  | nan
  /-- An infinity. -/
  | infinite (negative : Bool)
  /-- The number `mantissa * 2 ^ exponent`, or its negative. -/
  | finite (negative : Bool) (mantissa : Nat) (exponent : Int)
  deriving DecidableEq, Repr

namespace Binary64

/-! ## Rounding -/

/-- `num / den` to the nearest integer, a half to the even neighbour. -/
def roundDiv (num den : Nat) : Nat :=
  let q := num / den
  let r := num % den
  if 2 * r < den then q
  else if den < 2 * r then q + 1
  else q + q % 2

/-- Numerator and denominator of `num / den / 2 ^ e`. -/
def scale (num den : Nat) (e : Int) : Nat × Nat :=
  (num <<< (-e).toNat, den <<< e.toNat)

/-- The exponent at which `num / den` has 53 bits before the point, or the least one. -/
def lastPlace (num den : Nat) : Int :=
  let e : Int := (num.log2 : Int) - den.log2 - 53
  let (n, d) := scale num den e
  max (-1074) (if 0x20000000000000 ≤ n / d then e + 1 else e)

/-- The number nearest to `num / den`, with a sign. -/
def roundRatio (negative : Bool) (num den : Nat) : Binary64 :=
  let e := lastPlace num den
  let (n, d) := scale num den e
  let m := roundDiv n d
  if 971 < e ∨ (e = 971 ∧ 0x20000000000000 ≤ m) then infinite negative
  else finite negative m e

/-! ## Reading -/

/-- The number nearest to a decimal. Powers of ten far outside the range are not computed :
from `10 ^ 310` on a decimal is infinite, and below `10 ^ -400` it is zero. -/
def ofDecimal (negative : Bool) (d : Decimal) : Binary64 :=
  if d.significand = 0 then finite negative 0 0
  else if 310 ≤ d.exponent then infinite negative
  else if d.exponent + ((d.significand.log2 : Int) / 3 + 2) ≤ -400 then finite negative 0 0
  else
    roundRatio negative (d.significand * Nat.pow 10 d.exponent.toNat)
      (Nat.pow 10 (-d.exponent).toNat)

/-- A text in lower case, as far as it is ASCII. -/
def lower (cs : List Char) : List Char := cs.map Char.toLower

/-- The number that a text denotes : a decimal numeral, `inf`, `infinity` or `nan` in any
case, each with or without a sign. -/
def read? (cs : List Char) : Option Binary64 :=
  let (negative, cs) := Decimal.readSign cs
  let word := lower cs
  if word = "inf".toList ∨ word = "infinity".toList then some (infinite negative)
  else if word = "nan".toList then some nan
  else (Decimal.read? cs).map (ofDecimal negative)

/-! ## Arithmetic -/

/-- The product with a positive whole number that has at most 53 bits. -/
def mulNat (x : Binary64) (k : Nat) : Binary64 :=
  match x with
  | nan => nan
  | infinite negative => infinite negative
  | finite negative m e =>
    if m = 0 then finite negative 0 e
    else
      let (n, d) := scale (m * k) 1 (-e)
      roundRatio negative n d

/-- The whole part as a word of 64 bits; what lies outside becomes the nearest word. -/
def toWord : Binary64 → UInt64
  | nan => 0
  | infinite negative => if negative then 0 else UInt64.ofNat (UInt64.size - 1)
  | finite negative m e =>
    if negative then 0
    else UInt64.ofNat (min (m <<< e.toNat >>> (-e).toNat) (UInt64.size - 1))

end Binary64

end Chip8
