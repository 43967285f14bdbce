import Chip8.Overflow

/-!
# Pacing

A machine runs frame by frame, sixty frames a second. A pacer hands out the cycles of each
frame; what does not divide evenly is owed to the frames that follow. What is owed and the
frequency are added up in a word of 64 bits, which the sum has to fit.
-/

namespace Chip8

/-- Frames in a second. -/
def framesPerSecond : UInt64 := 60

/-- Nanoseconds in a frame. -/
def frameDuration : Nat := 1000000000 / framesPerSecond.toNat

/-- Cycles per second, and sixtieths of a cycle that are still owed. -/
structure Pacer where
  /-- Cycles per second. -/
  frequency : UInt64
  /-- Sixtieths of a cycle left over by the frames so far. -/
  owed : UInt64 := 0
  deriving DecidableEq, Repr

namespace Pacer

/-- The cycles of the next frame, and the pacer after it. -/
def next (p : Pacer) : Except Overflow (UInt64 × Pacer) := do
  let sixtieths := UInt64.ofBitVec (← addWords p.owed.toBitVec p.frequency.toBitVec)
  return (sixtieths / framesPerSecond, { p with owed := sixtieths % framesPerSecond })

/-- The cycles of the next `n` frames, and the pacer after them. -/
def frames (p : Pacer) : Nat → Except Overflow (List UInt64 × Pacer)
  | 0 => return ([], p)
  | n + 1 => do
    let (cycles, p) ← p.next
    let (rest, p) ← p.frames n
    return (cycles :: rest, p)

end Pacer

end Chip8
