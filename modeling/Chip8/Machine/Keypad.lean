import Chip8.Operation

/-!
# The keypad

Sixteen keys, one bit each in a word that holds the keys that are down. A key outside the
pad counts as the key of its low hex digit.
-/

namespace Chip8

namespace Keypad

/-- The bit of a key. -/
def flag (key : UInt8) : UInt16 := 1 <<< (key &&& 0xF).toUInt16

/-- The keys that are down after a key went down. -/
def press (down : UInt16) (key : UInt8) : UInt16 := down ||| flag key

/-- The keys that are down after a key went up. -/
def release (down : UInt16) (key : UInt8) : UInt16 := down &&& ~~~(flag key)

/-- Whether a key is down. -/
def isPressed (down : UInt16) (key : UInt8) : Bool := down &&& flag key != 0

/-- The lowest of some keys. -/
def lowest? (keys : UInt16) : Option Nibble :=
  (List.finRange 16).find? fun k => keys.toNat.testBit k.val

/-- The lowest of some keys is one of them. -/
theorem testBit_of_lowest? {keys : UInt16} {k : Nibble} (h : lowest? keys = some k) :
    keys.toNat.testBit k.val = true := by
  simpa using List.find?_some h

end Keypad

/-- A machine that waits for a key : the register that takes its number, and the keys that
were up when the wait began. -/
structure KeyWait where
  /-- The register for the number of the key. -/
  register : Nibble
  /-- The keys that end the wait. -/
  mask : UInt16
  deriving DecidableEq, Repr

end Chip8
