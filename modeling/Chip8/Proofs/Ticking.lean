import Chip8.Proofs.Host
import Mathlib.Order.MinMax

/-!
# Timers over any number of ticks

A tick counts every whole period since the instant at which its clock stands. Its loop comes to
an end after as many passes as there are whole periods (`Timers.loop_eq_some`), and what it has
done by then has a closed form (`Timers.drain_eq_after`) : both timers are lower by the number
of periods or at zero, and the clock stands that many periods later.

`Machine.serve_ticks` : after any ticks, in any order of their instants, the machine is the one
that a single tick at the latest instant leaves behind. No time is lost between ticks, and none
is counted twice.
-/

namespace Chip8

namespace Timers

/-! ## One tick -/

/-- The timers `n` periods later. -/
def after (t : Timers) (interval n : Nat) : Timers :=
  ⟨UInt8.ofNat (t.delay.toNat - n), UInt8.ofNat (t.sound.toNat - n), t.since + n * interval⟩

@[simp] theorem after_zero (t : Timers) (interval : Nat) : t.after interval 0 = t := by
  simp [after]

theorem toNat_ofNat_sub (timer : UInt8) (n : Nat) :
    (UInt8.ofNat (timer.toNat - n)).toNat = timer.toNat - n := by
  have hlt := timer.toNat_lt
  rw [UInt8.toNat_ofNat', Nat.mod_eq_of_lt (by omega)]

theorem toNat_lower (timer : UInt8) : (lower timer).toNat = timer.toNat - 1 := by
  unfold lower
  split_ifs with h0
  · rw [h0]
    rfl
  · have hpos : timer.toNat ≠ 0 := fun h => h0 (UInt8.toNat_inj.1 h)
    have hle : (1 : UInt8) ≤ timer := UInt8.le_iff_toNat_le.2 (Nat.one_le_iff_ne_zero.2 hpos)
    rw [UInt8.toNat_sub_of_le _ _ hle]
    rfl

theorem after_after (t : Timers) (interval n k : Nat) :
    (t.after interval n).after interval k = t.after interval (n + k) := by
  simp only [after, toNat_ofNat_sub, Nat.sub_sub, Nat.add_mul, Nat.add_assoc]

theorem endPeriod_eq_after (t : Timers) (interval : Nat) :
    t.endPeriod interval = t.after interval 1 := by
  have hlower (timer : UInt8) : lower timer = UInt8.ofNat (timer.toNat - 1) :=
    UInt8.toNat_inj.1 (by rw [toNat_lower, toNat_ofNat_sub])
  simp only [endPeriod, after, hlower, Nat.one_mul]

/-- A tick counts all whole periods since the clock was last moved. Each one lowers the sound
timer with a beep until it has run out. -/
theorem drain_eq_after {interval : Nat} (hi : 0 < interval) (now : Nat) (t : Timers)
    (beeps : Nat) : drain interval now t beeps =
      (t.after interval ((now - t.since) / interval),
        beeps + min t.sound.toNat ((now - t.since) / interval)) := by
  induction t, beeps using drain.induct interval now with
  | case1 t beeps h ih =>
    have hperiods : (now - t.since) / interval =
        1 + (now - (t.endPeriod interval).since) / interval := by
      show _ = 1 + (now - (t.since + interval)) / interval
      rw [← Nat.sub_sub, Nat.add_comm, ← Nat.div_eq_sub_div hi h.2]
    have hsound : (t.endPeriod interval).sound.toNat = t.sound.toNat - 1 := toNat_lower _
    simp only [dite_eq_ite] at ih
    rw [drain_of_le hi (by omega), ih, hperiods, hsound, ← after_after, ← endPeriod_eq_after]
    generalize (now - (t.endPeriod interval).since) / interval = rest
    have hbeeps : (if t.sound = 0 then beeps else beeps + 1) + min (t.sound.toNat - 1) rest =
        beeps + min t.sound.toNat (1 + rest) := by
      have hzero : t.sound = 0 ↔ t.sound.toNat = 0 := UInt8.toNat_inj.symm
      simp only [hzero]
      split_ifs with h0 <;> omega
    rw [hbeeps]
  | case2 t beeps h =>
    have hnone : (now - t.since) / interval = 0 := Nat.div_eq_of_lt (by omega)
    rw [drain, if_neg h, hnone, after_zero, Nat.min_zero, Nat.add_zero]

/-- The loop of a tick pass by pass, for `passes` of them at most : none if it goes on after
that. -/
def loop (interval now : Nat) : Nat → Timers → Nat → Option (Timers × Nat)
  | passes, t, beeps =>
    if now - t.since < interval then some (t, beeps)
    else
      match passes with
      | 0 => none
      | passes + 1 =>
        loop interval now passes (t.endPeriod interval) (if t.sound = 0 then beeps else beeps + 1)

/-- The loop ends after as many passes as there are whole periods. -/
theorem loop_eq_some {interval : Nat} (hi : 0 < interval) (now : Nat) (t : Timers)
    (beeps : Nat) : loop interval now ((now - t.since) / interval) t beeps =
      some (drain interval now t beeps) := by
  induction t, beeps using drain.induct interval now with
  | case1 t beeps h ih =>
    have hperiods : (now - t.since) / interval =
        (now - (t.endPeriod interval).since) / interval + 1 := by
      show _ = (now - (t.since + interval)) / interval + 1
      rw [← Nat.sub_sub, ← Nat.div_eq_sub_div hi h.2]
    simp only [dite_eq_ite] at ih
    rw [hperiods, loop, if_neg (by omega), drain_of_le hi (by omega)]
    exact ih
  | case2 t beeps h =>
    rw [drain, if_neg h]
    unfold loop
    exact if_pos (by omega)

/-- A tick at an instant that has `n` periods behind it already counts the rest of them; one
at an earlier instant counts none. -/
theorem drain_after {interval : Nat} (hi : 0 < interval) (now : Nat) (t : Timers) (n : Nat) :
    drain interval now (t.after interval n) 0 =
      (t.after interval (max n ((now - t.since) / interval)),
        min (t.sound.toNat - n) ((now - t.since) / interval - n)) := by
  have hrest : (now - (t.after interval n).since) / interval = (now - t.since) / interval - n := by
    show (now - (t.since + n * interval)) / interval = _
    rw [← Nat.sub_sub, Nat.mul_comm, Nat.sub_mul_div]
  have hsound : (t.after interval n).sound.toNat = t.sound.toNat - n := toNat_ofNat_sub _ _
  rw [drain_eq_after hi, hrest, hsound, after_after, Nat.zero_add, Nat.add_comm n,
    Nat.sub_add_eq_max, Nat.max_comm]

end Timers

namespace Machine

/-! ## Ticks in a row -/

/-- A machine with other timers, its clock started. -/
def setTimers (m : Machine) (t : Timers) : Machine :=
  { m with state := { m.state with delay := t.delay, sound := t.sound }, clock := some t.since }

/-- The timers of a machine whose clock stands at an instant. -/
def timersSince (m : Machine) (began : Nat) : Timers := ⟨m.state.delay, m.state.sound, began⟩

theorem setTimers_timersSince {m : Machine} {began : Nat} (hclock : m.clock = some began) :
    m.setTimers (m.timersSince began) = m := by
  simp only [setTimers, timersSince, ← hclock]

theorem tick_eq (m : Machine) (now : Nat) :
    let drained := Timers.drain m.state.timerInterval now (m.timersSince (m.clock.getD now)) 0
    m.tick now = (m.setTimers drained.1, drained.2) := rfl

theorem tick_setTimers (m : Machine) (t : Timers) (now : Nat) :
    (m.setTimers t).tick now =
      (m.setTimers (Timers.drain m.state.timerInterval now t 0).1,
        (Timers.drain m.state.timerInterval now t 0).2) := rfl

/-- Ticks in a row, from `n` periods on : they come to as many periods as the tick among them
that counts the most, and every beep is one step of the sound timer. -/
theorem serve_ticks_setTimers (m : Machine) (hi : 0 < m.state.timerInterval) (t : Timers)
    (instants : List Nat) (n : Nat) :
    let total := instants.foldl (fun n now => max n ((now - t.since) / m.state.timerInterval)) n
    (m.setTimers (t.after m.state.timerInterval n)).serve (instants.map .tick) =
        m.setTimers (t.after m.state.timerInterval total) ∧
      ∃ beeps, (m.setTimers (t.after m.state.timerInterval n)).told (instants.map .tick) =
          List.replicate beeps .beep ∧
        beeps + (t.sound.toNat - total) = t.sound.toNat - n := by
  induction instants generalizing n with
  | nil => exact ⟨rfl, 0, rfl, Nat.zero_add _⟩
  | cons now instants ih =>
    obtain ⟨hmachine, beeps, htold, hbeeps⟩ :=
      ih (max n ((now - t.since) / m.state.timerInterval))
    have htick := tick_setTimers m (t.after m.state.timerInterval n) now
    rw [Timers.drain_after hi] at htick
    simp only [List.map_cons, serve_cons, told_cons, answer, htick, List.foldl_cons, hmachine,
      htold, List.replicate_append_replicate]
    refine ⟨trivial, _, rfl, ?_⟩
    rw [Nat.add_assoc, hbeeps]
    omega

/-- The periods of the latest instant are the most. -/
theorem foldl_max_periods (since interval first : Nat) (instants : List Nat) :
    instants.foldl (fun n now => max n ((now - since) / interval)) ((first - since) / interval) =
      (instants.foldl max first - since) / interval :=
  List.foldl_hom (fun now => (now - since) / interval) fun a b => by
    have hmono : Monotone fun now => (now - since) / interval := fun a b hab =>
      Nat.div_le_div_right (Nat.sub_le_sub_right hab since)
    exact hmono.map_max.symm

theorem serve_ticks_of_max? {m : Machine} {began : Nat} (hclock : m.clock = some began)
    (hi : 0 < m.state.timerInterval) {instants : List Nat} {latest : Nat}
    (hlatest : instants.max? = some latest) :
    let periods := (latest - began) / m.state.timerInterval
    m.serve (instants.map .tick) =
        m.setTimers ((m.timersSince began).after m.state.timerInterval periods) ∧
      m.told (instants.map .tick) =
        List.replicate (min m.state.sound.toNat periods) .beep := by
  obtain ⟨first, rest, rfl⟩ : ∃ first rest, instants = first :: rest := by
    cases instants with
    | nil => simp at hlatest
    | cons first rest => exact ⟨first, rest, rfl⟩
  rw [List.max?_cons', Option.some_inj] at hlatest
  have htotal : (first :: rest).foldl
      (fun n now => max n ((now - (m.timersSince began).since) / m.state.timerInterval)) 0 =
        (latest - began) / m.state.timerInterval := by
    rw [List.foldl_cons, Nat.zero_max, foldl_max_periods, hlatest]
    rfl
  have hticks := serve_ticks_setTimers m hi (m.timersSince began) (first :: rest) 0
  simp only [htotal, Timers.after_zero, setTimers_timersSince hclock] at hticks
  obtain ⟨hmachine, beeps, htold, hbeeps⟩ := hticks
  have hsteps : beeps = min m.state.sound.toNat ((latest - began) / m.state.timerInterval) := by
    change beeps + (m.state.sound.toNat - _) = m.state.sound.toNat - 0 at hbeeps
    omega
  exact ⟨hmachine, by rw [htold, hsteps]⟩

theorem tick_of_zero {m : Machine} (hi : m.state.timerInterval = 0) (now : Nat) :
    m.tick now = ({ m with clock := some (m.clock.getD now) }, 0) := by
  have hdrain : Timers.drain m.state.timerInterval now (m.timersSince (m.clock.getD now)) 0 =
      (m.timersSince (m.clock.getD now), 0) := by
    rw [hi]
    exact Timers.drain_zero now _ 0
  rw [tick_eq, hdrain]
  rfl

/-- Ticks in a row, at instants in any order and with no others in between, come to one tick at
the latest of the instants. With `periods` whole periods from where the clock stood to there,
both timers are lower by that number or at zero, the machine has beeped once for every step of
the sound timer, and the clock stands where the last of the periods ended; nothing else has
changed. The loop of each tick ends. An interval of zero has no periods. -/
theorem serve_ticks (m : Machine) :
    (∀ (began : Nat) (instants : List Nat) (latest : Nat), m.clock = some began →
      0 < m.state.timerInterval → instants.max? = some latest →
      let periods := (latest - began) / m.state.timerInterval
      let ticked := m.serve (instants.map .tick)
      ticked.state.delay.toNat = m.state.delay.toNat - periods ∧
      ticked.state.sound.toNat = m.state.sound.toNat - periods ∧
      m.told (instants.map .tick) = List.replicate (min m.state.sound.toNat periods) .beep ∧
      ticked.clock = some (began + periods * m.state.timerInterval) ∧
      began + periods * m.state.timerInterval ≤ max began latest ∧
      ticked = { m with
        state := { m.state with delay := ticked.state.delay, sound := ticked.state.sound }
        clock := ticked.clock } ∧
      (∀ others : List Nat, others.max? = some latest →
        m.serve (others.map .tick) = ticked ∧
          m.told (others.map .tick) = m.told (instants.map .tick)) ∧
      ∀ (t : Timers) (now : Nat), ∃ passes, Timers.loop m.state.timerInterval now passes t 0 =
        some (Timers.drain m.state.timerInterval now t 0)) ∧
    (m.state.timerInterval = 0 → ∀ instants : List Nat,
      (m.serve (instants.map .tick)).state = m.state ∧ m.told (instants.map .tick) = []) := by
  refine ⟨fun began instants latest hclock hi hlatest => ?_, fun hi instants => ?_⟩
  · obtain ⟨hmachine, htold⟩ := serve_ticks_of_max? hclock hi hlatest
    have hmul : (latest - began) / m.state.timerInterval * m.state.timerInterval ≤
        latest - began := Nat.div_mul_le_self _ _
    dsimp only
    rw [hmachine, htold]
    refine ⟨Timers.toNat_ofNat_sub _ _, Timers.toNat_ofNat_sub _ _, rfl, rfl, by omega, rfl,
      fun others hothers => ?_, fun t now => ⟨_, Timers.loop_eq_some hi now t 0⟩⟩
    exact serve_ticks_of_max? hclock hi hothers
  · induction instants generalizing m with
    | nil => exact ⟨rfl, rfl⟩
    | cons now instants ih =>
      have htick := tick_of_zero hi now
      simp only [List.map_cons, serve_cons, told_cons, answer, htick, List.replicate_zero,
        List.nil_append]
      exact ih _ hi

/-- Three ticks, the latest of them in the middle : the thirty-one nanoseconds that it has
behind it are three periods of ten, and two of them beep. -/
theorem serve_ticks_three : ∃ m : Machine, m.clock = some 100 ∧
    (m.serve [.tick 105, .tick 131, .tick 90]).state.delay.toNat = 2 ∧
    (m.serve [.tick 105, .tick 131, .tick 90]).clock = some 130 ∧
    m.told [.tick 105, .tick 131, .tick 90] = [.beep, .beep] := by
  let m : Machine :=
    ⟨{ State.initial .smallest with delay := 5, sound := 2, timerInterval := 10 },
      .ofSeed 0, some 100⟩
  have hinterval : m.state.timerInterval = 10 := rfl
  have hticks := (serve_ticks m).1 100 [105, 131, 90] 131 rfl (by decide) (by decide)
  rw [hinterval] at hticks
  obtain ⟨hdelay, -, htold, hclock, -⟩ := hticks
  exact ⟨m, rfl, hdelay, hclock, htold⟩

end Machine

end Chip8
