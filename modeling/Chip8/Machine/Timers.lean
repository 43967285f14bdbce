import Chip8.Machine.State

/-!
# Timers

Both timers count down to zero, once in every period of `timerInterval` nanoseconds, and a
count of the sound timer beeps. `Timers.drain` counts every whole period up to an instant;
the rest of the time is left for later. It never ends a period that has not passed, and a
clock that is behind an earlier instant waits.
-/

namespace Chip8

/-- The timers, and the start of the period that runs. -/
structure Timers where
  /-- The delay timer. -/
  delay : UInt8
  /-- The sound timer. -/
  sound : UInt8
  /-- The instant at which the period began. -/
  since : Nat
  deriving DecidableEq, Repr

namespace Timers

/-- A timer one lower, or at zero. -/
def lower (timer : UInt8) : UInt8 := if timer = 0 then 0 else timer - 1

/-- The timers at the end of the period. -/
def endPeriod (t : Timers) (interval : Nat) : Timers :=
  ⟨lower t.delay, lower t.sound, t.since + interval⟩

/-- Counts every whole period up to `now`, and the beeps on the way, after `beeps` others.
An interval of zero has no periods. -/
def drain (interval now : Nat) (t : Timers) (beeps : Nat) : Timers × Nat :=
  if 0 < interval ∧ interval ≤ now - t.since then
    drain interval now (t.endPeriod interval) (if t.sound = 0 then beeps else beeps + 1)
  else (t, beeps)
termination_by now - t.since
decreasing_by simp only [endPeriod]; omega

theorem drain_of_lt {interval now : Nat} {t : Timers} (h : now < t.since + interval)
    (beeps : Nat) : drain interval now t beeps = (t, beeps) := by
  rw [drain, if_neg (by omega)]

theorem drain_zero (now : Nat) (t : Timers) (beeps : Nat) : drain 0 now t beeps = (t, beeps) := by
  rw [drain, if_neg (by omega)]

theorem drain_of_le {interval now : Nat} {t : Timers} (hi : 0 < interval)
    (h : t.since + interval ≤ now) (beeps : Nat) :
    drain interval now t beeps =
      drain interval now (t.endPeriod interval) (if t.sound = 0 then beeps else beeps + 1) := by
  rw [drain, if_pos (by omega)]

/-- Beeps before the drain add to those on the way. -/
theorem drain_add (interval now : Nat) (t : Timers) (beeps before : Nat) :
    drain interval now t (beeps + before) =
      ((drain interval now t beeps).1, (drain interval now t beeps).2 + before) := by
  induction t, beeps using drain.induct interval now with
  | case1 t beeps h ih =>
    have hbeeps : (if t.sound = 0 then beeps + before else beeps + before + 1) =
        (if t.sound = 0 then beeps else beeps + 1) + before := by split <;> omega
    simp only [dite_eq_ite] at ih
    rw [drain, if_pos h, hbeeps, ih, ← drain_of_le h.1 (by omega)]
  | case2 t beeps h => rw [drain, if_neg h, drain, if_neg h]

end Timers

end Chip8
