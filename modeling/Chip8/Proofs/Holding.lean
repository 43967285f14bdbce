import Chip8.Proofs.Presses
import Chip8.Terminal.Platform

/-!
# Keys held by a terminal

A terminal learns of presses only. It keeps the time of each and lets go of a key in a sweep, once
that time is more than `Terminal.keyHold` ago. The keys that are down are those with a press time,
and a press time is that of the last press of its key. Where there is none, some step came too late
for every press there was, and so does any step after it (`Terminal.Recalls`). Events and sweeps
keep this up, whatever numbers the key map gives (`Terminal.Tracks.event`, `Terminal.Tracks.sweep`).

`Terminal.isPressed_keySteps` : after a sweep the keys that are down are those that were pressed
within the last 100 milliseconds, and none but this last sweep has a say in it. The same operations
with numbers that may lie outside the press times (`Terminal.keyStep?`) always succeed.
-/

namespace Chip8

/-! ## Keys as bits -/

theorem Nibble.toNat_ofNat_mod (key : Nibble) : (UInt8.ofNat key.val).toNat % 16 = key.val := by
  revert key
  decide

namespace Keypad

theorem testBit_flag (number : UInt8) (key : Nibble) :
    (flag number).toNat.testBit key.val = decide (number.toNat % 16 = key.val) := by
  have hdigit : (number &&& 0xF).toNat = number.toNat % 16 :=
    Nat.and_two_pow_sub_one_eq_mod number.toNat 4
  have hbit : (flag number).toNat = 2 ^ (number.toNat % 16) % 2 ^ 16 := by
    rw [flag, UInt16.toNat_shiftLeft, UInt8.toNat_toUInt16, hdigit, Nat.mod_mod]
    exact congrArg (· % 2 ^ 16) (Nat.one_shiftLeft _)
  rw [hbit, Nat.testBit_mod_two_pow, decide_eq_true key.isLt, Bool.true_and, Nat.testBit_two_pow]

theorem testBit_press (down : UInt16) (number : UInt8) (key : Nibble) :
    (press down number).toNat.testBit key.val =
      (down.toNat.testBit key.val || decide (number.toNat % 16 = key.val)) := by
  rw [press, UInt16.toNat_or, Nat.testBit_or, testBit_flag]

theorem testBit_release (down : UInt16) (number : UInt8) (key : Nibble) :
    (release down number).toNat.testBit key.val =
      (down.toNat.testBit key.val && !decide (number.toNat % 16 = key.val)) := by
  rw [release, testBit_and_compl, testBit_flag]

theorem isPressed_eq (down : UInt16) (number : UInt8) :
    isPressed down number = down.toNat.testBit (number.toNat % 16) := by
  let digit : Nibble := Nibble.ofNat number.toNat
  have hbits : ∀ key : Nibble, (down &&& flag number).toNat.testBit key.val =
      (down.toNat.testBit key.val && decide (digit.val = key.val)) := fun key => by
    rw [UInt16.toNat_and, Nat.testBit_and, testBit_flag]
    rfl
  rw [Bool.eq_iff_iff, isPressed, bne_iff_ne, ne_eq, eq_zero_iff_testBit]
  simp only [hbits, not_forall, Bool.not_eq_false, Bool.and_eq_true, decide_eq_true_eq]
  constructor
  · rintro ⟨key, hdown, hkey⟩
    rwa [← hkey] at hdown
  · intro hdown
    exact ⟨digit, hdown, rfl⟩

theorem eq_of_isPressed {down held : UInt16}
    (h : ∀ number, isPressed down number = isPressed held number) : down = held := by
  rw [← UInt16.xor_eq_zero_iff, eq_zero_iff_testBit]
  intro key
  have hbit := h (UInt8.ofNat key.val)
  rw [isPressed_eq, isPressed_eq, Nibble.toNat_ofNat_mod] at hbit
  rw [UInt16.toNat_xor, Nat.testBit_xor, hbit, Bool.xor_self]

end Keypad

/-- An event presses a key of the keypad : it reports no release and not the escape key, and the
map sends its stroke to the key or to a number that counts as this key. -/
def KeyMap.Presses (map : KeyMap) (e : KeyEvent) (key : Nat) : Prop :=
  e.kind ≠ .release ∧ e.code ≠ .escape ∧
    ∃ number, map.lookup? e.stroke = some number ∧ number.toNat % 16 = key % 16

theorem KeyMap.Presses.unique {map : KeyMap} {e : KeyEvent} {key other : Nibble}
    (h : map.Presses e key) (hother : map.Presses e other) : key = other := by
  obtain ⟨-, -, number, hlookup, hnumber⟩ := h
  obtain ⟨-, -, same, hsame, hdigit⟩ := hother
  obtain rfl := Option.some.inj (hlookup.symm.trans hsame)
  rw [Nat.mod_eq_of_lt key.lt] at hnumber
  rw [Nat.mod_eq_of_lt other.lt] at hdigit
  exact Fin.ext (hnumber.symm.trans hdigit)

namespace Terminal

/-! ## Histories of the keypad -/

/-- What happens to the keypad of a terminal, and when. -/
inductive KeyStep where
  /-- A key event is taken. -/
  | event (e : KeyEvent) (now : Nat)
  /-- Keys are let go. -/
  | sweep (now : Nat)
  deriving DecidableEq

namespace KeyStep

/-- When a step happens. -/
def instant : KeyStep → Nat
  | event _ now => now
  | sweep now => now

/-- Whether a step is a key event. -/
def isEvent : KeyStep → Bool
  | event _ _ => true
  | sweep _ => false

/-- Whether a step is the release of a key. -/
def isRelease : KeyStep → Bool
  | event e _ => e.kind = .release
  | sweep _ => false

end KeyStep

/-- A terminal and the keys that are down, after a step. -/
def keyStep (x : Terminal × UInt16) : KeyStep → Terminal × UInt16
  | .event e now => x.1.handleKey e x.2 now
  | .sweep now => x.1.releaseStale x.2 now

/-- A terminal and the keys that are down, after some steps. -/
def keySteps (x : Terminal × UInt16) (steps : List KeyStep) : Terminal × UInt16 :=
  steps.foldl keyStep x

/-- No step happens before one that precedes it. -/
def InOrder (steps : List KeyStep) : Prop := steps.Pairwise fun a b => a.instant ≤ b.instant

instance (steps : List KeyStep) : Decidable (InOrder steps) :=
  inferInstanceAs (Decidable (steps.Pairwise _))

/-- One of the steps is an event at `now` that presses a key. -/
def PressedAt (map : KeyMap) (steps : List KeyStep) (key now : Nat) : Prop :=
  ∃ e, .event e now ∈ steps ∧ map.Presses e key

section Events

variable {t : Terminal} {e : KeyEvent} {down : UInt16} {now : Nat} {key k : Nibble}

theorem handleKey_of_presses (h : t.keyMap.Presses e key) :
    t.handleKey e down now = t.press key down now := by
  obtain ⟨hkind, hcode, number, hlookup, hnumber⟩ := h
  have hkey : Nibble.ofNat number.toNat = key :=
    Fin.ext (hnumber.trans (Nat.mod_eq_of_lt key.lt))
  simp only [handleKey, hkind, hcode, hlookup, hkey, if_false]

theorem handleKey_of_not_presses (h : ∀ key : Nibble, ¬t.keyMap.Presses e key) :
    ∃ quit, t.handleKey e down now = ({ t with quit := quit }, down) := by
  unfold handleKey
  split
  · exact ⟨t.quit, rfl⟩
  · next hkind =>
    split
    · exact ⟨true, rfl⟩
    · next hcode =>
      split
      · next number hlookup =>
        have hpresses : t.keyMap.Presses e (Nibble.ofNat number.toNat) :=
          ⟨hkind, hcode, number, hlookup, (Nat.mod_mod _ _).symm⟩
        exact absurd hpresses (h _)
      · exact ⟨t.quit, rfl⟩

theorem get_set (times : Vector (Option Nat) 16) (time : Option Nat) :
    (times.set key time (Nibble.lt key)).get k = if key = k then time else times.get k := by
  have hget : (times.set key time (Nibble.lt key)).get k =
      if key.val = k.val then time else times.get k := Vector.getElem_set key.lt k.lt
  simpa only [Fin.ext_iff] using hget

theorem testBit_press : (t.press key down now).2.toNat.testBit k.val =
    (down.toNat.testBit k.val || decide (key = k)) := by
  rw [press, Keypad.testBit_press, Nibble.toNat_ofNat_mod]
  simp only [Fin.ext_iff]

end Events

/-! ## Letting go -/

theorem isStale_iff {t : Terminal} {now : Nat} {key : Nibble} : t.isStale now key = true ↔
    ∃ pressed, t.pressedAt.get key = some pressed ∧ keyHold < now - pressed := by
  unfold isStale
  cases t.pressedAt.get key <;> simp

theorem releaseAll_eq (keys : List Nibble) (x : Terminal × UInt16) (k : Nibble) :
    let y := keys.foldl (fun (t, down) key => t.release down key) x
    y.1.keyMap = x.1.keyMap ∧
    y.1.pressedAt.get k = (if k ∈ keys then none else x.1.pressedAt.get k) ∧
    y.2.toNat.testBit k.val = (x.2.toNat.testBit k.val && !decide (k ∈ keys)) := by
  induction keys generalizing x with
  | nil => simp
  | cons key keys ih =>
    obtain ⟨hmap, htime, hbit⟩ := ih (x.1.release x.2 key)
    refine ⟨hmap, ?_, ?_⟩
    · rw [List.foldl_cons, htime, release, get_set]
      by_cases hk : k ∈ keys <;> simp [hk, eq_comm]
    · rw [List.foldl_cons, hbit, release, Keypad.testBit_release, Nibble.toNat_ofNat_mod]
      simp only [← Fin.ext_iff, List.mem_cons, Bool.decide_or, Bool.not_or, Bool.and_assoc,
        eq_comm]

theorem releaseStale_eq (t : Terminal) (down : UInt16) (now : Nat) (k : Nibble) :
    let y := t.releaseStale down now
    y.1.keyMap = t.keyMap ∧
    y.1.pressedAt.get k = (if t.isStale now k then none else t.pressedAt.get k) ∧
    y.2.toNat.testBit k.val = (down.toNat.testBit k.val && !t.isStale now k) := by
  have h := releaseAll_eq ((List.finRange 16).filter (t.isStale now)) (t, down) k
  simpa [releaseStale] using h

/-! ## Press times and keys -/

section Tracking

variable {map : KeyMap} {steps : List KeyStep} {step : KeyStep} {x : Terminal × UInt16}
  {e : KeyEvent} {now : Nat}

theorem pressedAt_concat_iff {key : Nat} : PressedAt map (steps ++ [step]) key now ↔
    PressedAt map steps key now ∨ ∃ e, step = .event e now ∧ map.Presses e key := by
  simp only [PressedAt, List.mem_append, List.mem_singleton, or_and_right, exists_or, eq_comm]

theorem pressedAt_concat_of_not {key : Nat} (h : ∀ e, step = .event e now → ¬map.Presses e key) :
    PressedAt map (steps ++ [step]) key now ↔ PressedAt map steps key now := by
  rw [pressedAt_concat_iff, or_iff_left]
  rintro ⟨e, hstep, hpresses⟩
  exact h e hstep hpresses

theorem pressedAt_concat_sweep {key swept : Nat} :
    PressedAt map (steps ++ [.sweep swept]) key now ↔ PressedAt map steps key now :=
  pressedAt_concat_of_not nofun

/-- What a press time tells of the steps that led to it. It is that of the last press; where there
is none, one of the steps found every press too long ago. -/
def Recalls (map : KeyMap) (steps : List KeyStep) (key : Nibble) : Option Nat → Prop
  | some last => PressedAt map steps key last ∧ ∀ now, PressedAt map steps key now → now ≤ last
  | none => ∀ now, PressedAt map steps key now → ∃ s ∈ steps, keyHold < s.instant - now

theorem Recalls.concat {key : Nibble} {time : Option Nat} (h : Recalls map steps key time)
    (hstep : ∀ e now, step = .event e now → ¬map.Presses e key) :
    Recalls map (steps ++ [step]) key time := by
  have hpressed : ∀ now, PressedAt map (steps ++ [step]) key now ↔ PressedAt map steps key now :=
    fun now => pressedAt_concat_of_not fun e => hstep e now
  cases time with
  | some last =>
    obtain ⟨hlast, hle⟩ := h
    exact ⟨(hpressed last).2 hlast, fun now hnow => hle now ((hpressed now).1 hnow)⟩
  | none =>
    intro now hnow
    obtain ⟨s, hs, hlong⟩ := h now ((hpressed now).1 hnow)
    exact ⟨s, List.mem_append_left _ hs, hlong⟩

theorem recalls_press {key : Nibble} (hpresses : map.Presses e key)
    (horder : ∀ s ∈ steps, s.instant ≤ now) :
    Recalls map (steps ++ [.event e now]) key (some now) := by
  refine ⟨⟨e, List.mem_append_right _ (List.mem_singleton_self _), hpresses⟩, ?_⟩
  rintro earlier ⟨e', he', -⟩
  rcases List.mem_append.1 he' with he' | he'
  · exact horder _ he'
  · cases List.mem_singleton.1 he'
    exact Nat.le_refl now

/-- A press time may be dropped if it is too long ago. -/
theorem Recalls.sweep {key : Nibble} {last : Nat} (h : Recalls map steps key (some last))
    (hlong : keyHold < now - last) : Recalls map (steps ++ [.sweep now]) key none := by
  intro earlier hearlier
  obtain ⟨-, hle⟩ := h
  have hlast := hle earlier (pressedAt_concat_sweep.1 hearlier)
  refine ⟨.sweep now, List.mem_append_right _ (List.mem_singleton_self _), ?_⟩
  exact Nat.lt_of_lt_of_le hlong (Nat.sub_le_sub_left hlast now)

/-- If no press time is too long ago, there is one exactly if there was a press that is not. -/
theorem Recalls.isSome_iff {key : Nibble} {time : Option Nat} (h : Recalls map steps key time)
    (horder : ∀ s ∈ steps, s.instant ≤ now) (hrecent : ∀ last ∈ time, now - last ≤ keyHold) :
    time.isSome = true ↔ ∃ t, PressedAt map steps key t ∧ now - t ≤ keyHold := by
  cases time with
  | some last =>
    obtain ⟨hlast, -⟩ := h
    exact iff_of_true rfl ⟨last, hlast, hrecent last rfl⟩
  | none =>
    refine iff_of_false Bool.false_ne_true ?_
    rintro ⟨t, ht, hshort⟩
    obtain ⟨s, hs, hlong⟩ := h t ht
    have hle := horder s hs
    omega

/-- What a terminal and the keys that are down tell of the steps that led to them. -/
structure Tracks (map : KeyMap) (steps : List KeyStep) (x : Terminal × UInt16) : Prop where
  /-- The key map has not changed. -/
  keyMap : x.1.keyMap = map
  /-- The keys that are down are those with a press time. -/
  down : ∀ key : Nibble, x.2.toNat.testBit key.val = (x.1.pressedAt.get key).isSome
  /-- The press times are those of the steps. -/
  recalls : ∀ key : Nibble, Recalls map steps key (x.1.pressedAt.get key)

theorem tracks_fresh (map : KeyMap) : Tracks map [] ({ keyMap := map }, 0) := by
  have htime : ∀ key : Nibble, (Vector.replicate 16 (none : Option Nat)).get key = none :=
    fun key => Vector.getElem_replicate key.lt
  refine ⟨rfl, fun key => ?_, fun key => ?_⟩
  · rw [htime]
    exact Nat.zero_testBit _
  · rw [htime]
    rintro now ⟨e, he, -⟩
    cases he

/-- A key event is tracked. It leaves what is known of a key alone unless it presses this key. -/
theorem Tracks.event (h : Tracks map steps x) (e : KeyEvent) {now : Nat}
    (horder : ∀ s ∈ steps, s.instant ≤ now) :
    Tracks map (steps ++ [.event e now]) (x.1.handleKey e x.2 now) := by
  obtain ⟨hmap, hdown, hrecalls⟩ := h
  have hother : ∀ k : Nibble, ¬map.Presses e k →
      Recalls map (steps ++ [.event e now]) k (x.1.pressedAt.get k) := fun k hk =>
    (hrecalls k).concat fun e' now' he => by
      cases he
      exact hk
  by_cases hpresses : ∃ key : Nibble, map.Presses e key
  · obtain ⟨key, hkey⟩ := hpresses
    have hget : ∀ k, (x.1.press key x.2 now).1.pressedAt.get k =
        if key = k then some now else x.1.pressedAt.get k :=
      fun k => get_set x.1.pressedAt (some now)
    rw [handleKey_of_presses (hmap ▸ hkey)]
    refine ⟨hmap, fun k => ?_, fun k => ?_⟩
    · rw [testBit_press, hdown, hget]
      by_cases hk : key = k <;> simp [hk]
    · rw [hget]
      split
      · next heq => exact heq ▸ recalls_press hkey horder
      · next hne => exact hother k fun hk => hne (hkey.unique hk)
  · rw [not_exists] at hpresses
    obtain ⟨quit, hidle⟩ := handleKey_of_not_presses (hmap ▸ hpresses)
    rw [hidle]
    exact ⟨hmap, hdown, fun k => hother k (hpresses k)⟩

theorem Tracks.sweep (h : Tracks map steps x) (now : Nat) :
    Tracks map (steps ++ [.sweep now]) (x.1.releaseStale x.2 now) := by
  refine ⟨?_, fun key => ?_, fun key => ?_⟩
  · obtain ⟨hmap, -, -⟩ := releaseStale_eq x.1 x.2 now 0
    exact hmap.trans h.keyMap
  · obtain ⟨-, htime, hbit⟩ := releaseStale_eq x.1 x.2 now key
    rw [hbit, htime, h.down]
    cases x.1.isStale now key <;> simp
  · obtain ⟨-, htime, -⟩ := releaseStale_eq x.1 x.2 now key
    have hrecalls := h.recalls key
    rw [htime]
    split
    · next hstale =>
      obtain ⟨last, hget, hlong⟩ := isStale_iff.1 hstale
      rw [hget] at hrecalls
      exact hrecalls.sweep hlong
    · exact hrecalls.concat nofun

theorem Tracks.keyStep (h : Tracks map steps x) (horder : ∀ s ∈ steps, s.instant ≤ step.instant) :
    Tracks map (steps ++ [step]) (keyStep x step) := by
  cases step with
  | event e now => exact h.event e horder
  | sweep now => exact h.sweep now

end Tracking

theorem tracks_keySteps (map : KeyMap) {steps : List KeyStep} (h : InOrder steps) :
    Tracks map steps (keySteps ({ keyMap := map }, 0) steps) := by
  induction steps using List.reverseRecOn with
  | nil => exact tracks_fresh map
  | append_singleton steps step ih =>
    obtain ⟨hsteps, -, hlast⟩ := List.pairwise_append.1 h
    rw [keySteps, List.foldl_append]
    exact (ih hsteps).keyStep fun s hs => hlast s hs step (List.mem_singleton_self _)

theorem le_keyHold_of_sweep {t : Terminal} {down : UInt16} {now : Nat} {key : Nibble} :
    ∀ last ∈ (t.releaseStale down now).1.pressedAt.get key, now - last ≤ keyHold := by
  intro last hlast
  obtain ⟨-, htime, -⟩ := releaseStale_eq t down now key
  rw [htime] at hlast
  split at hlast
  · cases hlast
  · next hstale =>
    exact Nat.le_of_not_lt fun hlong => hstale (isStale_iff.2 ⟨last, hlast, hlong⟩)

/-- After a sweep the keys that are down are those that were pressed no longer ago than a key is
held. -/
theorem isPressed_iff_of_sweep (map : KeyMap) {steps : List KeyStep} {now : Nat}
    (h : InOrder (steps ++ [.sweep now])) (number : UInt8) :
    Keypad.isPressed (keySteps ({ keyMap := map }, 0) (steps ++ [.sweep now])).2 number = true ↔
      ∃ t, PressedAt map steps number.toNat t ∧ now - t ≤ keyHold := by
  let key : Nibble := Nibble.ofNat number.toNat
  let x := keySteps ({ keyMap := map }, 0) steps
  obtain ⟨hsteps, -, hlast⟩ := List.pairwise_append.1 h
  have horder : ∀ s ∈ steps ++ [.sweep now], s.instant ≤ now := List.forall_mem_append.2
    ⟨fun s hs => hlast s hs _ (List.mem_singleton_self _),
      List.forall_mem_singleton.2 (Nat.le_refl now)⟩
  have hx : keySteps ({ keyMap := map }, 0) (steps ++ [.sweep now]) =
      x.1.releaseStale x.2 now := by
    rw [keySteps, List.foldl_append]
    rfl
  have htracks : Tracks map (steps ++ [.sweep now]) (x.1.releaseStale x.2 now) :=
    (tracks_keySteps map hsteps).sweep now
  have hdown : (x.1.releaseStale x.2 now).2.toNat.testBit (number.toNat % 16) =
      ((x.1.releaseStale x.2 now).1.pressedAt.get key).isSome := htracks.down key
  rw [Keypad.isPressed_eq, hx, hdown,
    (htracks.recalls key).isSome_iff horder le_keyHold_of_sweep]
  simp only [pressedAt_concat_sweep]
  simp only [PressedAt, KeyMap.Presses, key, Nibble.ofNat, Nat.mod_mod]

/-! ## Press times by number -/

/-- `press` with a number that may be out of range. -/
def press? (t : Terminal) (number : UInt8) (down : UInt16) (now : Nat) :
    Option (Terminal × UInt16) :=
  if h : number.toNat < 16 then
    some ({ t with pressedAt := t.pressedAt.set number.toNat (some now) h },
      Keypad.press down number)
  else none

/-- `handleKey` with the number that the key map gives. -/
def handleKey? (t : Terminal) (event : KeyEvent) (down : UInt16) (now : Nat) :
    Option (Terminal × UInt16) :=
  if event.kind = .release then some (t, down)
  else if event.code = .escape then some ({ t with quit := true }, down)
  else
    match t.keyMap.lookup? event.stroke with
    | some number => t.press? (number &&& 0xF) down now
    | none => some (t, down)

/-- Looks at the press time of a key, which may be out of range, and lets go of it if it was pressed
more than `keyHold` ago. -/
def releaseStaleKey? (now : Nat) (x : Terminal × UInt16) (number : UInt8) :
    Option (Terminal × UInt16) :=
  if h : number.toNat < 16 then
    match x.1.pressedAt[number.toNat] with
    | some pressed =>
      if keyHold < now - pressed then
        some ({ x.1 with pressedAt := x.1.pressedAt.set number.toNat none h },
          Keypad.release x.2 number)
      else some x
    | none => some x
  else none

/-- `releaseStale`, one key after the other. -/
def releaseStale? (t : Terminal) (down : UInt16) (now : Nat) : Option (Terminal × UInt16) :=
  ((List.range 16).map UInt8.ofNat).foldlM (releaseStaleKey? now) (t, down)

/-- `keyStep` with numbers that may be out of range. -/
def keyStep? (x : Terminal × UInt16) : KeyStep → Option (Terminal × UInt16)
  | .event e now => x.1.handleKey? e x.2 now
  | .sweep now => x.1.releaseStale? x.2 now

section Numbers

variable {t : Terminal} {down : UInt16} {now : Nat} {number : UInt8} {key : Nibble}

theorem press?_eq (h : number.toNat = key.val) :
    t.press? number down now = some (t.press key down now) := by
  obtain ⟨value, hvalue⟩ := key
  obtain rfl : number.toNat = value := h
  rw [press?, dif_pos hvalue, press, UInt8.ofNat_toNat]

theorem releaseStaleKey?_eq (h : number.toNat = key.val) (x : Terminal × UInt16) :
    releaseStaleKey? now x number =
      some (if x.1.isStale now key then x.1.release x.2 key else x) := by
  obtain ⟨value, hvalue⟩ := key
  obtain rfl : number.toNat = value := h
  have hget : x.1.pressedAt.get ⟨number.toNat, hvalue⟩ = x.1.pressedAt[number.toNat] := rfl
  rw [releaseStaleKey?, dif_pos hvalue, isStale, hget, release, UInt8.ofNat_toNat]
  cases x.1.pressedAt[number.toNat] with
  | none => rfl
  | some pressed => by_cases hlong : keyHold < now - pressed <;> simp [hlong]

end Numbers

theorem handleKey?_eq (t : Terminal) (e : KeyEvent) (down : UInt16) (now : Nat) :
    t.handleKey? e down now = some (t.handleKey e down now) := by
  unfold handleKey? handleKey
  split_ifs
  · rfl
  · rfl
  · cases t.keyMap.lookup? e.stroke with
    | none => rfl
    | some number => exact press?_eq (Nat.and_two_pow_sub_one_eq_mod number.toNat 4)

/-- Keys that are let go one after the other were already to be let go at the start, as one of them
has no say for the others. -/
theorem foldl_release_eq (keys : List Nibble) (hnodup : keys.Nodup) (t : Terminal) (now : Nat)
    (x : Terminal × UInt16) (h : ∀ k ∈ keys, x.1.pressedAt.get k = t.pressedAt.get k) :
    keys.foldl (fun x k => if x.1.isStale now k then x.1.release x.2 k else x) x =
      (keys.filter (t.isStale now)).foldl (fun (t, down) key => t.release down key) x := by
  induction keys generalizing x with
  | nil => rfl
  | cons key keys ih =>
    obtain ⟨hkey, hkeys⟩ := List.nodup_cons.1 hnodup
    obtain ⟨hsame, hrest⟩ := List.forall_mem_cons.1 h
    have hstale : x.1.isStale now key = t.isStale now key := by
      rw [isStale, isStale, hsame]
    rw [List.foldl_cons, hstale, List.filter_cons]
    split
    · refine ih hkeys _ fun k hk => ?_
      have hne : key ≠ k := fun heq => hkey (heq ▸ hk)
      rw [release, get_set, if_neg hne, hrest k hk]
    · exact ih hkeys x hrest

theorem releaseStale?_eq (t : Terminal) (down : UInt16) (now : Nat) :
    t.releaseStale? down now = some (t.releaseStale down now) := by
  have hnumbers : (List.range 16).map UInt8.ofNat =
      (List.finRange 16).map fun key => UInt8.ofNat key.val := by decide
  have hkey : ∀ key : Nibble, (UInt8.ofNat key.val).toNat = key.val := by decide
  rw [releaseStale?, hnumbers, List.foldlM_map]
  simp only [releaseStaleKey?_eq (hkey _)]
  rw [releaseStale, ← foldl_release_eq _ (List.nodup_finRange 16) t now (t, down) fun _ _ => rfl]
  exact List.foldlM_pure

theorem keyStep?_eq (x : Terminal × UInt16) (step : KeyStep) :
    keyStep? x step = some (keyStep x step) := by
  cases step with
  | event e now => exact handleKey?_eq x.1 e x.2 now
  | sweep now => exact releaseStale?_eq x.1 x.2 now

theorem foldlM_keyStep? (steps : List KeyStep) (x : Terminal × UInt16) :
    steps.foldlM keyStep? x = some (keySteps x steps) := by
  have hstep : keyStep? = fun x step => pure (keyStep x step) :=
    funext fun x => funext fun step => keyStep?_eq x step
  rw [hstep]
  exact List.foldlM_pure

/-! ## Keys after a sweep -/

theorem pressedAt_filter_isEvent {map : KeyMap} {steps : List KeyStep} {key now : Nat} :
    PressedAt map (steps.filter KeyStep.isEvent) key now ↔ PressedAt map steps key now := by
  have hmem : ∀ e : KeyEvent,
      .event e now ∈ steps.filter KeyStep.isEvent ↔ .event e now ∈ steps := fun e => by
    rw [List.mem_filter, KeyStep.isEvent, and_iff_left rfl]
  simp only [PressedAt, hmem]

theorem keySteps_filter_isRelease (x : Terminal × UInt16) (steps : List KeyStep) :
    keySteps x (steps.filter fun step => !step.isRelease) = keySteps x steps := by
  induction steps generalizing x with
  | nil => rfl
  | cons step steps ih =>
    rw [List.filter_cons]
    split
    · exact ih _
    · next hrelease =>
      have hstep : keyStep x step = x := by
        cases step with
        | sweep now => exact absurd rfl hrelease
        | event e now =>
          have hkind : e.kind = .release := by simpa [KeyStep.isRelease] using hrelease
          rw [keyStep, handleKey, if_pos hkind]
      rw [ih, keySteps, keySteps, List.foldl_cons, hstep]

/-- Key events and sweeps reach a new terminal with any key map and a keypad with no key down, none
of them earlier than the one before. After a sweep at `last`, a key is down exactly if an event
pressed it no more than 100 milliseconds before. Earlier sweeps do not change that.

The release of a key never changes anything, and no event, number of a key map or sweep looks for a
press time that does not exist. -/
theorem isPressed_keySteps (map : KeyMap) :
    (∀ (steps : List KeyStep) (last : Nat), InOrder (steps ++ [.sweep last]) →
      let down := (keySteps ({ keyMap := map }, 0) (steps ++ [.sweep last])).2
      (∀ key : UInt8, Keypad.isPressed down key = true ↔
        ∃ pressed, PressedAt map steps key.toNat pressed ∧ last - pressed ≤ 100000000) ∧
      ∀ others : List KeyStep, InOrder (others ++ [.sweep last]) →
        others.filter KeyStep.isEvent = steps.filter KeyStep.isEvent →
        (keySteps ({ keyMap := map }, 0) (others ++ [.sweep last])).2 = down) ∧
    ∀ (x : Terminal × UInt16) (steps : List KeyStep),
      keySteps x (steps.filter fun step => !step.isRelease) = keySteps x steps ∧
      steps.foldlM keyStep? x = some (keySteps x steps) := by
  refine ⟨fun steps last horder => ⟨isPressed_iff_of_sweep map horder, ?_⟩,
    fun x steps => ⟨keySteps_filter_isRelease x steps, foldlM_keyStep? steps x⟩⟩
  intro others hothers hevents
  have hpressed : ∀ key pressed,
      PressedAt map others key pressed ↔ PressedAt map steps key pressed := fun key pressed => by
    rw [← pressedAt_filter_isEvent, hevents, pressedAt_filter_isEvent]
  refine Keypad.eq_of_isPressed fun key => Bool.eq_iff_iff.2 ?_
  rw [isPressed_iff_of_sweep map hothers, isPressed_iff_of_sweep map horder]
  simp only [hpressed]

/-- A number above 15 counts as a key, a repetition as a press, and 100 milliseconds are not too
long; an early sweep changes nothing. -/
theorem isPressed_keySteps_boundary :
    let map : KeyMap := [(⟨.char 'k', {}⟩, 0x11), (⟨.tab, {}⟩, 0x2F)]
    let steps : List KeyStep := [.event ⟨.char 'K', { shift := true }, .press⟩ 0,
      .sweep 100000001, .event ⟨.tab, {}, .repeated⟩ 100000002]
    let down := (keySteps ({ keyMap := map }, 0) (steps ++ [.sweep 200000002])).2
    Keypad.isPressed down 0xF = true ∧ Keypad.isPressed down 0x1 = false ∧
      (keySteps ({ keyMap := map }, 0)
        (steps.filter KeyStep.isEvent ++ [.sweep 200000002])).2 = down := by
  intro map steps down
  obtain ⟨hsweep, -⟩ := isPressed_keySteps map
  obtain ⟨hdown, hsame⟩ := hsweep steps 200000002 (by decide)
  refine ⟨?_, ?_, hsame _ (by decide) (by decide)⟩
  · have hpresses : map.Presses ⟨.tab, {}, .repeated⟩ 0xF :=
      ⟨by decide, by decide, 0x2F, by decide, by decide⟩
    exact (hdown 0xF).2 ⟨100000002, ⟨_, by decide, hpresses⟩, by decide⟩
  · refine Bool.eq_false_iff.2 fun hpressed => ?_
    obtain ⟨pressed, ⟨e, he, -, -, number, hlookup, hnumber⟩, hlong⟩ := (hdown 0x1).1 hpressed
    simp only [steps, List.mem_cons, List.not_mem_nil, or_false, reduceCtorEq, false_or,
      KeyStep.event.injEq] at he
    rcases he with ⟨-, rfl⟩ | ⟨rfl, -⟩
    · exact absurd hlong (by decide)
    · have htab : map.lookup? (KeyEvent.stroke ⟨.tab, {}, .repeated⟩) = some 0x2F := by decide
      obtain rfl := Option.some.inj (htab.symm.trans hlookup)
      exact absurd hnumber (by decide)

end Terminal

end Chip8
