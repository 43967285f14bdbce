/-!
# Sums that have to fit

The operations of a machine say of each sum whether it wraps or is a fault. The program around
the machine adds up words too : `addWords` is the sum of two words, and an overflow if no word has
room for it. An overflow stops the program where it happens, and what was done before it stays.
-/

namespace Chip8

/-- Why the program stops before it is done. -/
inductive Overflow where
  /-- A sum does not fit a word. -/
  | sum
  deriving DecidableEq, Repr

/-- The wording of an overflow. -/
def Overflow.message : Overflow → String
  | sum => "attempt to add with overflow"

/-- The sum of two words, if it fits a word. -/
def addWords {w : Nat} (a b : BitVec w) : Except Overflow (BitVec w) :=
  if a.uaddOverflow b then .error .sum else .ok (a + b)

end Chip8
