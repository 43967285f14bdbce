import Chip8.Text.Numeral

/-!
# Decimal numerals

A decimal numeral is a sequence of digits with at most one point in it, then an exponent
if there is one : `12`, `12.`, `.5`, `1.5e-3`. `Decimal.read?` reads one as an integer
times a power of ten, which loses nothing.
-/

namespace Chip8

/-- The number `significand * 10 ^ exponent`. -/
structure Decimal where
  /-- All digits, read without the point. -/
  significand : Nat
  /-- The power of ten. -/
  exponent : Int
  deriving DecidableEq, Repr

namespace Decimal

/-- The value of digits, zero for none. -/
def valueOf (ds : List Char) : Nat := ds.foldl (fun n c => n * 10 + (c.toNat - 48)) 0

/-- A sign, or none, and the text behind it. -/
def readSign : List Char → Bool × List Char
  | '+' :: cs => (false, cs)
  | '-' :: cs => (true, cs)
  | cs => (false, cs)

/-- The exponent that ends a numeral, zero if there is none. -/
def readExponent? : List Char → Option Int
  | [] => some 0
  | c :: cs =>
    if c = 'e' ∨ c = 'E' then
      let (negative, ds) := readSign cs
      if ds.isEmpty ∨ !ds.all Char.isDigit then none
      else some (if negative then -(valueOf ds : Int) else valueOf ds)
    else none

/-- The digits behind the point, if there is one, and the text behind them. -/
def readFraction : List Char → List Char × List Char
  | '.' :: cs => (cs.takeWhile Char.isDigit, cs.dropWhile Char.isDigit)
  | cs => ([], cs)

/-- The number that a numeral without a sign denotes. -/
def read? (cs : List Char) : Option Decimal :=
  let whole := cs.takeWhile Char.isDigit
  let (fraction, rest) := readFraction (cs.dropWhile Char.isDigit)
  if whole.isEmpty ∧ fraction.isEmpty then none
  else
    (readExponent? rest).map fun e => ⟨valueOf (whole ++ fraction), e - fraction.length⟩

end Decimal

end Chip8
