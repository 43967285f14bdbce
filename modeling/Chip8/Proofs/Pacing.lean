import Chip8.CommandLine.Program
import Chip8.Proofs.WellFormed
import Mathlib.Algebra.Ring.Nat
import Mathlib.Data.Int.GCD

/-!
# Cycles over many frames

A frame hands out as many cycles as there are sixties in what is owed and the frequency together,
and the rest is owed to the next frame. Over any number of frames nothing is lost : what is handed
out and what is still owed add up to what was owed and the frequency as often as there were frames
(`Pacer.Paced`). So any sixty frames hand out the frequency (`Pacer.Paced.total_sixty`).

This holds as long as the sums fit a word. The first one that does not stops the pacer, and the
frames before it tell which one it is, since what is owed along the way are the multiples of the
frequency modulo sixty (`Pacer.exists_frames_iff`).

`Pacer.total_frames` : frequencies that fit with all that can be owed.
`CommandLine.paces_iff` : of all frequencies that a command line may ask for, which ones are kept.
The largest multiple modulo sixty is sixty less the greatest common divisor of sixty and the
frequency (`exists_mul_mod_eq_sub_gcd`), so that the frequencies that are not kept are just the ones
to which that cannot be added in a word. `CommandLine.paces_overrun` is the largest frequency, which
is one of them.
-/

namespace Chip8

/-! ## Multiples modulo a number -/

section Multiples

variable {d : Nat} (hd : 0 < d) (f : Nat)

include hd

/-- A multiple of `f` modulo `d` is at most `d` less the greatest common divisor. -/
theorem mul_mod_le_sub_gcd (n : Nat) : n * f % d ≤ d - Nat.gcd f d := by
  have hlt : n * f % d < d := Nat.mod_lt _ hd
  have hdvd : Nat.gcd f d ∣ n * f % d :=
    (Nat.dvd_mod_iff (Nat.gcd_dvd_right f d)).2 ((Nat.gcd_dvd_left f d).mul_left n)
  have hle : Nat.gcd f d ≤ d - n * f % d :=
    Nat.le_of_dvd (by omega) (Nat.dvd_sub (Nat.gcd_dvd_right f d) hdvd)
  omega

/-- Some multiple of `f` is as large as that. -/
theorem exists_mul_mod_eq_sub_gcd : ∃ n, n * f % d = d - Nat.gcd f d := by
  have hpos : 0 < Nat.gcd f d := Nat.gcd_pos_of_pos_right f hd
  rcases Nat.lt_or_ge (Nat.gcd f d) d with hlt | hge
  · obtain ⟨m, -, hm⟩ := Nat.exists_mul_mod_eq_gcd hlt
    obtain ⟨c, hc⟩ := Nat.gcd_dvd_right f d
    have hprev : Nat.gcd f d * (c - 1) = d - Nat.gcd f d := by
      rw [Nat.mul_sub_one, ← hc]
    refine ⟨m * (c - 1), ?_⟩
    rw [Nat.mul_right_comm, Nat.mul_comm m f, Nat.mul_mod, hm, Nat.mul_mod_mod, hprev]
    exact Nat.mod_eq_of_lt (by omega)
  · refine ⟨0, ?_⟩
    rw [Nat.zero_mul, Nat.zero_mod]
    omega

end Multiples

/-! ## One frame -/

namespace Pacer

/-- The sum of the next frame fits a word. -/
def Fits (p : Pacer) : Prop := p.owed.toNat + p.frequency.toNat < 2 ^ 64

variable {p q r : Pacer} {c : UInt64} {cycles : List UInt64} {m n : Nat}

theorem fits_iff (p : Pacer) : p.Fits ↔ ¬p.owed.toBitVec.uaddOverflow p.frequency.toBitVec := by
  rw [BitVec.uaddOverflow, decide_eq_true_iff, ge_iff_le, Nat.not_le]
  rfl

theorem next_of_fits (h : p.Fits) : p.next = .ok ((p.owed + p.frequency) / framesPerSecond,
    { p with owed := (p.owed + p.frequency) % framesPerSecond }) := by
  rw [next, addWords, if_neg (p.fits_iff.1 h)]
  rfl

theorem exists_next (h : p.Fits) : ∃ c q, p.next = .ok (c, q) := ⟨_, _, next_of_fits h⟩

theorem next_of_not_fits (h : ¬p.Fits) : p.next = .error .sum := by
  rw [next, addWords, if_pos (not_not.1 (mt p.fits_iff.2 h))]
  rfl

/-- A frame splits its sum into cycles and what is owed. -/
theorem split_of_next (h : p.next = .ok (c, q)) : q.frequency = p.frequency ∧
    q.owed.toNat < 60 ∧ 60 * c.toNat + q.owed.toNat = p.owed.toNat + p.frequency.toNat := by
  by_cases hfits : p.Fits
  · rw [next_of_fits hfits] at h
    cases h
    have hsum : (p.owed + p.frequency).toNat = p.owed.toNat + p.frequency.toNat :=
      Nat.mod_eq_of_lt hfits
    have hcycles : ((p.owed + p.frequency) / framesPerSecond).toNat =
        (p.owed + p.frequency).toNat / 60 := UInt64.toNat_div _ _
    have hrest : ((p.owed + p.frequency) % framesPerSecond).toNat =
        (p.owed + p.frequency).toNat % 60 := UInt64.toNat_mod _ _
    refine ⟨rfl, ?_⟩
    dsimp only
    omega
  · rw [next_of_not_fits hfits] at h
    cases h

/-! ## Frames one after the other -/

theorem frames_succ (h : p.next = .ok (c, q)) :
    p.frames (n + 1) = (q.frames n).map fun x => (c :: x.1, x.2) := by
  simp only [frames, h, bind, Except.bind]
  cases q.frames n <;> rfl

theorem frames_succ_of_not_fits (h : ¬p.Fits) : p.frames (n + 1) = .error .sum := by
  rw [frames, next_of_not_fits h]
  rfl

theorem frames_succ_eq_ok (h : p.frames (n + 1) = .ok (cycles, r)) : ∃ c q rest,
    p.next = .ok (c, q) ∧ q.frames n = .ok (rest, r) ∧ cycles = c :: rest := by
  by_cases hfits : p.Fits
  · obtain ⟨c, q, hnext⟩ := exists_next hfits
    rw [frames_succ hnext] at h
    cases hrest : q.frames n with
    | error e =>
      rw [hrest] at h
      cases h
    | ok x =>
      rw [hrest] at h
      cases h
      exact ⟨c, q, x.1, hnext, hrest, rfl⟩
  · rw [frames_succ_of_not_fits hfits] at h
    cases h

theorem exists_frames_succ_iff (h : p.next = .ok (c, q)) :
    (∃ cycles r, p.frames (n + 1) = .ok (cycles, r)) ↔
      ∃ cycles r, q.frames n = .ok (cycles, r) := by
  constructor
  · rintro ⟨cycles, r, hframes⟩
    obtain ⟨c', q', rest, hnext, hrest, rfl⟩ := frames_succ_eq_ok hframes
    rw [h] at hnext
    cases hnext
    exact ⟨rest, r, hrest⟩
  · rintro ⟨rest, r, hrest⟩
    refine ⟨c :: rest, r, ?_⟩
    rw [frames_succ h, hrest]
    rfl

theorem frames_add (h : p.frames m = .ok (cycles, q)) (n : Nat) :
    p.frames (m + n) = (q.frames n).map fun x => (cycles ++ x.1, x.2) := by
  induction m generalizing p cycles with
  | zero =>
    cases h
    rw [Nat.zero_add]
    cases q.frames n <;> rfl
  | succ m ih =>
    obtain ⟨c, p', rest, hnext, hrest, rfl⟩ := frames_succ_eq_ok h
    rw [Nat.succ_add, frames_succ hnext, ih hrest]
    cases q.frames n <;> rfl

/-- Frames that are handed out come in two parts. -/
theorem frames_add_eq_ok (h : p.frames (m + n) = .ok (cycles, r)) : ∃ first q rest,
    p.frames m = .ok (first, q) ∧ q.frames n = .ok (rest, r) ∧ cycles = first ++ rest := by
  induction m generalizing p cycles with
  | zero =>
    rw [Nat.zero_add] at h
    exact ⟨[], p, cycles, rfl, h, rfl⟩
  | succ m ih =>
    rw [Nat.succ_add] at h
    obtain ⟨c, p', tail, hnext, htail, rfl⟩ := frames_succ_eq_ok h
    obtain ⟨first, q, rest, hfirst, hrest, rfl⟩ := ih htail
    refine ⟨c :: first, q, rest, ?_, hrest, rfl⟩
    rw [frames_succ hnext, hfirst]
    rfl

/-! ## What is handed out and what is owed -/

/-- What `n` frames of a pacer come to : each of them has the frequency over sixty, rounded down or
up, less than a cycle is owed behind them, and nothing is lost. -/
structure Paced (p : Pacer) (n : Nat) (cycles : List UInt64) (q : Pacer) : Prop where
  frequency : q.frequency = p.frequency
  length : cycles.length = n
  owed : q.owed.toNat < 60
  total : 60 * (cycles.map UInt64.toNat).sum + q.owed.toNat = p.owed.toNat + n * p.frequency.toNat
  each : ∀ c ∈ cycles, c.toNat = p.frequency.toNat / 60 ∨ c.toNat = (p.frequency.toNat + 59) / 60

theorem Paced.nil (h : p.owed.toNat < 60) : Paced p 0 [] p :=
  ⟨rfl, rfl, h, by simp, fun _ hc => absurd hc List.not_mem_nil⟩

theorem Paced.cons (howed : p.owed.toNat < 60) (hnext : p.next = .ok (c, q))
    (h : Paced q n cycles r) : Paced p (n + 1) (c :: cycles) r := by
  obtain ⟨hfrequency, howed', hsplit⟩ := split_of_next hnext
  have htotal := h.total
  have heach := h.each
  rw [hfrequency] at htotal heach
  refine ⟨h.frequency.trans hfrequency, congrArg (· + 1) h.length, h.owed, ?_,
    List.forall_mem_cons.2 ⟨by omega, heach⟩⟩
  rw [List.map_cons, List.sum_cons, Nat.succ_mul n]
  omega

theorem paced_frames (howed : p.owed.toNat < 60) (h : p.frames n = .ok (cycles, q)) :
    Paced p n cycles q := by
  induction n generalizing p cycles with
  | zero =>
    cases h
    exact .nil howed
  | succ n ih =>
    obtain ⟨c, p', rest, hnext, hrest, rfl⟩ := frames_succ_eq_ok h
    exact .cons howed hnext (ih (split_of_next hnext).2.1 hrest)

/-- Any sixty frames of those that are handed out have the frequency together. -/
theorem sum_sixty (howed : p.owed.toNat < 60) (h : p.frames n = .ok (cycles, q)) {k : Nat}
    (hk : k + 60 ≤ n) : (((cycles.drop k).take 60).map UInt64.toNat).sum = p.frequency.toNat := by
  obtain ⟨more, rfl⟩ := Nat.exists_eq_add_of_le hk
  obtain ⟨upto, q₂, rest, hupto, -, rfl⟩ := frames_add_eq_ok h
  obtain ⟨before, q₁, sixty, hbefore, hsixty, rfl⟩ := frames_add_eq_ok hupto
  have hfirst := paced_frames howed hbefore
  have hpaced := paced_frames hfirst.owed hsixty
  have htotal := hpaced.total
  have hend := hpaced.owed
  have hbegin := hfirst.owed
  rw [hfirst.frequency] at htotal
  rw [List.append_assoc, List.drop_left' hfirst.length, List.take_left' hpaced.length]
  omega

/-- Frames are handed out exactly if the sums of all of them fit. What is owed before one of them is
a number of frequencies modulo sixty. -/
theorem exists_frames_iff (howed : p.owed.toNat < 60) : (∃ cycles q, p.frames n = .ok (cycles, q)) ↔
    ∀ k < n, (p.owed.toNat + k * p.frequency.toNat) % 60 + p.frequency.toNat < 2 ^ 64 := by
  induction n generalizing p with
  | zero => exact ⟨fun _ k hk => absurd hk (Nat.not_lt_zero k), fun _ => ⟨[], p, rfl⟩⟩
  | succ n ih =>
    rw [Nat.forall_lt_succ_left, Nat.zero_mul, Nat.add_zero p.owed.toNat,
      Nat.mod_eq_of_lt howed]
    by_cases hfits : p.Fits
    · obtain ⟨c, q, hnext⟩ := exists_next hfits
      obtain ⟨hfrequency, howed', hsplit⟩ := split_of_next hnext
      have hsum (k : Nat) : (q.owed.toNat + k * p.frequency.toNat) % 60 =
          (p.owed.toNat + (k + 1) * p.frequency.toNat) % 60 := by
        rw [Nat.succ_mul k]
        omega
      rw [exists_frames_succ_iff hnext, ih howed', hfrequency]
      simp only [hsum]
      exact (and_iff_right hfits).symm
    · refine ⟨fun ⟨cycles, r, h⟩ => ?_, fun h => absurd h.1 hfits⟩
      rw [frames_succ_of_not_fits hfits] at h
      cases h

/-! ## From the first frame on -/

/-- A pacer that has not handed out anything. -/
def fresh (frequency : UInt64) : Pacer := { frequency := frequency }

@[simp] theorem frequency_fresh (frequency : UInt64) :
    (fresh frequency).frequency = frequency := rfl

theorem toNat_owed_fresh (frequency : UInt64) : (fresh frequency).owed.toNat = 0 := rfl

theorem owed_fresh_lt (frequency : UInt64) : (fresh frequency).owed.toNat < 60 := by
  rw [toNat_owed_fresh]
  decide

variable {f : UInt64}

/-- The cycles are the quotient of all sixtieths, and the rest is owed. -/
theorem sum_and_owed_of_frames (h : (fresh f).frames n = .ok (cycles, q)) :
    (cycles.map UInt64.toNat).sum = n * f.toNat / 60 ∧ q.owed.toNat = n * f.toNat % 60 := by
  have hpaced := paced_frames (owed_fresh_lt f) h
  have htotal := hpaced.total
  have howed := hpaced.owed
  rw [toNat_owed_fresh, frequency_fresh] at htotal
  omega

theorem exists_frames_fresh_iff (f : UInt64) (n : Nat) :
    (∃ cycles q, (fresh f).frames n = .ok (cycles, q)) ↔
      ∀ k < n, k * f.toNat % 60 + f.toNat < 2 ^ 64 := by
  have hiff := exists_frames_iff (n := n) (owed_fresh_lt f)
  simpa only [toNat_owed_fresh, Nat.zero_add, frequency_fresh] using hiff

theorem frames_fresh_eq_error_iff (f : UInt64) (n : Nat) :
    (fresh f).frames n = .error .sum ↔ ∃ k < n, 2 ^ 64 ≤ k * f.toNat % 60 + f.toNat := by
  have hiff := exists_frames_fresh_iff f n
  cases hframes : (fresh f).frames n with
  | error e =>
    rw [hframes] at hiff
    have hover : ¬∀ k < n, k * f.toNat % 60 + f.toNat < 2 ^ 64 := fun h =>
      have ⟨_, _, hok⟩ := hiff.2 h
      nomatch hok
    exact iff_of_true rfl (by simpa only [not_forall, Nat.not_lt, exists_prop] using hover)
  | ok x =>
    have hfits := hiff.1 ⟨x.1, x.2, hframes⟩
    exact iff_of_false nofun fun ⟨k, hk, hover⟩ => Nat.not_le.2 (hfits k hk) hover

/-- A frequency that fits a word with all that can be owed. However many frames there are, they are
handed out, and have the whole cycles of their time, each of them the frequency over sixty, rounded
down or up. Less than a cycle is owed. Any sixty of them after each other have the frequency
together. -/
theorem total_frames (h : f.toNat + 59 < 2 ^ 64) (n : Nat) :
    ∃ cycles p, (fresh f).frames n = .ok (cycles, p) ∧ cycles.length = n ∧
      (cycles.map UInt64.toNat).sum = n * f.toNat / 60 ∧
      (∀ c ∈ cycles, c.toNat = f.toNat / 60 ∨ c.toNat = (f.toNat + 59) / 60) ∧
      p.owed.toNat < 60 ∧ p.owed.toNat = n * f.toNat % 60 ∧
      ∀ k, k + 60 ≤ n → (((cycles.drop k).take 60).map UInt64.toNat).sum = f.toNat := by
  obtain ⟨cycles, p, hframes⟩ := (exists_frames_fresh_iff f n).2 fun k _ => by omega
  have hpaced := paced_frames (owed_fresh_lt f) hframes
  obtain ⟨hsum, howed⟩ := sum_and_owed_of_frames hframes
  exact ⟨cycles, p, hframes, hpaced.length, hsum, hpaced.each, hpaced.owed, howed,
    fun k => sum_sixty (owed_fresh_lt f) hframes⟩

/-- The largest of these frequencies, from the second frame on. -/
theorem total_frames_largest : (18446744073709551556 : UInt64).toNat + 59 < 2 ^ 64 ∧
    ∃ cycles p, (fresh 18446744073709551556).frames (1 + 60) = .ok (cycles, p) ∧
      (((cycles.drop 1).take 60).map UInt64.toNat).sum = 18446744073709551556 := by
  have hfits : (18446744073709551556 : UInt64).toNat + 59 < 2 ^ 64 := by decide
  obtain ⟨cycles, p, hframes, -, -, -, -, -, hsixty⟩ := total_frames hfits (1 + 60)
  exact ⟨hfits, cycles, p, hframes, hsixty 1 (Nat.le_refl _)⟩

/-- The sums of all frames fit exactly if the sum does where the most is owed. -/
theorem forall_sums_lt_iff (f : Nat) :
    (∀ n, n * f % 60 + f < 2 ^ 64) ↔ f + (60 - Nat.gcd f 60) < 2 ^ 64 := by
  constructor
  · intro h
    obtain ⟨n, hn⟩ := exists_mul_mod_eq_sub_gcd (d := 60) (by decide) f
    have hsum := h n
    omega
  · intro h n
    have hle := mul_mod_le_sub_gcd (d := 60) (by decide) f n
    omega

theorem forall_frames_iff (f : UInt64) :
    (∀ n, ∃ cycles q, (fresh f).frames n = .ok (cycles, q)) ↔
      f.toNat + (60 - Nat.gcd f.toNat 60) < 2 ^ 64 := by
  simp only [exists_frames_fresh_iff, ← forall_sums_lt_iff]
  exact ⟨fun h n => h (n + 1) n (Nat.lt_succ_self n), fun h n k _ => h k⟩

/-- The sum of the frame behind any number of frames fits exactly if all frames are handed out. -/
theorem forall_owed_add_lt_iff (f : UInt64) :
    (∀ n, ∃ cycles q, (fresh f).frames n = .ok (cycles, q) ∧ q.owed.toNat + f.toNat < 2 ^ 64) ↔
      f.toNat + (60 - Nat.gcd f.toNat 60) < 2 ^ 64 := by
  rw [← forall_frames_iff]
  constructor
  · intro h n
    obtain ⟨cycles, q, hframes, -⟩ := h n
    exact ⟨cycles, q, hframes⟩
  · intro h n
    obtain ⟨cycles, q, hframes⟩ := h n
    have hsum := (exists_frames_fresh_iff f (n + 1)).1 (h (n + 1)) n (Nat.lt_succ_self n)
    have howed := (sum_and_owed_of_frames hframes).2
    exact ⟨cycles, q, hframes, by omega⟩

/-- Sixty frames have the frequency behind any number of frames exactly if all frames are handed
out. -/
theorem forall_sum_sixty_iff (f : UInt64) :
    (∀ k, ∃ cycles q, (fresh f).frames (k + 60) = .ok (cycles, q) ∧
        ((cycles.drop k).map UInt64.toNat).sum = f.toNat) ↔
      f.toNat + (60 - Nat.gcd f.toNat 60) < 2 ^ 64 := by
  rw [← forall_frames_iff]
  constructor
  · intro h n
    obtain ⟨cycles, q, hframes, -⟩ := h n
    obtain ⟨first, q', -, hfirst, -⟩ := frames_add_eq_ok hframes
    exact ⟨first, q', hfirst⟩
  · intro h k
    obtain ⟨cycles, q, hframes⟩ := h (k + 60)
    have hlength := (paced_frames (owed_fresh_lt f) hframes).length
    have hsixty := sum_sixty (owed_fresh_lt f) hframes (Nat.le_refl (k + 60))
    rw [List.take_of_length_le (by rw [List.length_drop]; omega)] at hsixty
    exact ⟨cycles, q, hframes, hsixty⟩

end Pacer

/-! ## Sessions -/

namespace CommandLine

namespace Session

/-- The cycles of the frames that a session begins within so many steps. -/
def begun (s : Session) : Nat → List UInt64
  | 0 => []
  | n + 1 =>
    if s.ended then []
    else if s.left = 0 then
      match s.pacer.next with
      | .ok (cycles, _) => cycles :: s.step.1.begun n
      | .error _ => []
    else s.step.1.begun n

variable {s : Session}

theorem steps_of_ended (h : s.ended = true) (n : Nat) : s.steps n = s := by
  cases n with
  | zero => rfl
  | succ n => rw [steps, if_pos h]

theorem steps_succ {n : Nat} (h : (s.steps n).ended = false) :
    s.steps (n + 1) = (s.steps n).step.1 := by
  induction n generalizing s with
  | zero => exact if_neg (Bool.eq_false_iff.1 h)
  | succ n ih =>
    have hs : s.ended = false := Bool.eq_false_iff.2 fun hended => by
      rw [steps_of_ended hended, hended] at h
      cases h
    rw [steps, if_neg (Bool.eq_false_iff.1 hs)] at h ⊢
    rw [ih h, steps, if_neg (Bool.eq_false_iff.1 hs)]

theorem pacer_cycle (s : Session) : s.cycle.1.pacer = s.pacer := by
  unfold cycle
  dsimp only
  split <;> rfl

theorem nextFrame_of_ok {c : UInt64} {q : Pacer} (h : s.pacer.next = .ok (c, q)) :
    s.nextFrame.pacer = q ∧ s.nextFrame.overflow = s.overflow := by
  rw [nextFrame, h]
  exact ⟨rfl, rfl⟩

theorem nextFrame_of_error {e : Overflow} (h : s.pacer.next = .error e) :
    s.nextFrame.pacer = s.pacer ∧ s.nextFrame.overflow = some e := by
  rw [nextFrame, h]
  exact ⟨rfl, rfl⟩

theorem ended_of_overflow {e : Overflow} (h : s.overflow = some e) : s.ended = true := by
  rw [ended, h]
  simp

/-- Whatever the machine does, the frames have the cycles that the pacer hands out. -/
theorem frames_begun (s : Session) (n : Nat) :
    s.pacer.frames (s.begun n).length = .ok (s.begun n, (s.steps n).pacer) := by
  induction n generalizing s with
  | zero => rfl
  | succ n ih =>
    have hrest := ih s.step.1
    rw [begun, steps]
    split_ifs with hended hleft
    · rfl
    · have hstep : s.step.1 = s.nextFrame := by rw [step, if_pos hleft]
      rw [hstep] at hrest ⊢
      cases hnext : s.pacer.next with
      | error e =>
        obtain ⟨hpacer, hoverflow⟩ := nextFrame_of_error hnext
        rw [steps_of_ended (ended_of_overflow hoverflow), hpacer]
        rfl
      | ok x =>
        rw [(nextFrame_of_ok hnext).1] at hrest
        dsimp only
        rw [List.length_cons, Pacer.frames_succ hnext, hrest]
        rfl
    · have hsame : s.step.1.pacer = s.pacer := by rw [step, if_neg hleft, pacer_cycle]
      rwa [hsame] at hrest

/-- A session that is to begin a frame stops instead exactly if the pacer does. -/
theorem overflow_steps_iff {n : Nat} (hended : (s.steps n).ended = false)
    (hleft : (s.steps n).left = 0) : (s.steps (n + 1)).overflow = some .sum ↔
      s.pacer.frames ((s.begun n).length + 1) = .error .sum := by
  have hnone : (s.steps n).overflow ≠ some .sum := fun h => by
    rw [ended_of_overflow h] at hended
    cases hended
  rw [steps_succ hended, step, if_pos hleft, Pacer.frames_add (s.frames_begun n) 1]
  generalize s.steps n = t at *
  cases hnext : t.pacer.next with
  | error e =>
    cases e
    refine iff_of_true (nextFrame_of_error hnext).2 ?_
    rw [Pacer.frames, hnext]
    rfl
  | ok x =>
    rw [(nextFrame_of_ok hnext).2, Pacer.frames_succ hnext]
    exact iff_of_false hnone nofun

end Session

/-- A run that opens a session has read its frequency, and paces the session with it. -/
theorem readFrequency_of_startRun {env : Environment} {program : String} {options : MachineOptions}
    {frequency : String} {seed : Option UInt64} {listing : Bool} {s : Session}
    {commands : List Terminal.Command}
    (h : startRun env program options frequency seed listing = (.session s, commands)) :
    ∃ f, readFrequency frequency.toList = .ok f ∧ s.pacer = Pacer.fresh f := by
  unfold startRun at h
  split at h
  · cases h
  split at h
  · cases h
  rename_i f hf
  unfold openSession at h
  split at h
  · cases h
  dsimp only at h
  split at h
  · cases h
  cases h
  exact ⟨f, hf, rfl⟩

/-- A program that fits into the memory of valid settings is run in a session. -/
theorem exists_startRun {env : Environment} {program frequency : String} {options : MachineOptions}
    {settings : Settings} {bytes : ByteArray} {f : UInt64}
    (hsettings : options.settings env.files = .ok settings) (hvalid : settings.Valid)
    (hread : readFrequency frequency.toList = .ok f) (hfile : env.files program = .ok bytes)
    (hroom : bytes.toList.length ≤ settings.memorySize.toNat - programStart)
    (seed : Option UInt64) (listing : Bool) : ∃ s commands,
      startRun env program options frequency seed listing = (.session s, commands) := by
  have hload (random : Random) : loadFile env.files ⟨.initial settings, random, none⟩ program =
      .ok (⟨.holding settings 0x200 bytes.toList, random, none⟩, bytes.size) := by
    simp only [loadFile, hfile, Machine.load_initial _ hroom]
    rfl
  simp only [startRun, hsettings, hread, openSession, Machine.new_eq_ok hvalid, hload]
  exact ⟨_, _, rfl⟩

/-- A frequency that a text denotes is kept, in that the sum of every frame fits a word, and in that
any sixty frames after each other hand it out, exactly if a word has room for it and sixty less its
greatest common divisor with sixty. The first sum that does not fit stops the pacer. The frames of a
session with that frequency have the cycles that the pacer hands out, whatever the machine does, and
where the pacer stops, so does the session. -/
theorem paces_iff {text : List Char} {f : UInt64} (h : readFrequency text = .ok f) :
    let p := Pacer.fresh f
    let kept := f.toNat + (60 - Nat.gcd f.toNat 60) < 2 ^ 64
    ((∀ n, ∃ cycles q, p.frames n = .ok (cycles, q) ∧ q.owed.toNat + f.toNat < 2 ^ 64) ↔ kept) ∧
    ((∀ k, ∃ cycles q, p.frames (k + 60) = .ok (cycles, q) ∧
      ((cycles.drop k).map UInt64.toNat).sum = f.toNat) ↔ kept) ∧
    (∀ n, p.frames n = .error .sum ↔ ∃ k < n, 2 ^ 64 ≤ k * f.toNat % 60 + f.toNat) ∧
    ∀ env program options seed listing s commands,
      startRun env program options (String.ofList text) seed listing = (.session s, commands) →
        s.pacer = p ∧ ∀ n,
          p.frames (s.begun n).length = .ok (s.begun n, (s.steps n).pacer) ∧
          ((s.steps n).ended = false → (s.steps n).left = 0 →
            ((s.steps (n + 1)).overflow = some .sum ↔
              p.frames ((s.begun n).length + 1) = .error .sum)) := by
  refine ⟨Pacer.forall_owed_add_lt_iff f, Pacer.forall_sum_sixty_iff f,
    Pacer.frames_fresh_eq_error_iff f,
    fun env program options seed listing s commands hstart => ?_⟩
  obtain ⟨g, hg, hpacer⟩ := readFrequency_of_startRun hstart
  rw [String.toList_ofList, h] at hg
  cases hg
  rw [← hpacer]
  exact ⟨rfl, fun n => ⟨s.frames_begun n, Session.overflow_steps_iff⟩⟩

/-- A frequency that would not fit with 59 sixtieths, but never owes more than 30, and a run that is
paced with it. -/
theorem paces_iff_even : ∃ text f, readFrequency text = .ok f ∧ 2 ^ 64 ≤ f.toNat + 59 ∧
    (∃ cycles q, (Pacer.fresh f).frames (1 + 60) = .ok (cycles, q) ∧
      ((cycles.drop 1).map UInt64.toNat).sum = f.toNat) ∧
    ∃ env s commands, startRun env "p" {} (String.ofList text) (some 8) false =
      (.session s, commands) ∧ s.pacer = Pacer.fresh f := by
  have hread : readFrequency "18446744073709551570".toList = .ok 18446744073709551570 := by
    decide +kernel
  obtain ⟨-, hsixty, -, hpaced⟩ := paces_iff hread
  let env : Environment := { files := fun _ => .ok ⟨#[0x12, 0x00]⟩ }
  have hbytes : (⟨#[0x12, 0x00]⟩ : ByteArray).toList = [0x12, 0x00] := by decide +kernel
  obtain ⟨s, commands, hopened⟩ : ∃ s commands,
      startRun env "p" {} "18446744073709551570" (some 8) false = (.session s, commands) :=
    exists_startRun rfl Settings.valid_default hread rfl (by rw [hbytes]; decide) (some 8) false
  exact ⟨_, _, hread, by decide, hsixty.2 (by decide) 1, env, s, commands, hopened,
    (hpaced env "p" {} (some 8) false s commands hopened).1⟩

/-- The largest frequency is none that is kept : the first frame leaves fifteen sixtieths owed, to
which it cannot be added, and there are no sixty frames. -/
theorem paces_overrun :
    readFrequency "18446744073709551615".toList = .ok 18446744073709551615 ∧
    (Pacer.fresh 18446744073709551615).frames 1 =
      .ok ([307445734561825860], ⟨18446744073709551615, 15⟩) ∧
    2 ^ 64 ≤ (15 : UInt64).toNat + (18446744073709551615 : UInt64).toNat ∧
    (Pacer.fresh 18446744073709551615).frames 60 = .error .sum := by
  decide +kernel

end CommandLine

end Chip8
