import Chip8.Proofs.Instruction

/-!
# What the platform is told of the screen

Two operations change the screen. One that clears it tells the platform just that; one that
draws shows it the state with the new screen (`Machine.callbacks_execute`). So the platform is
told enough to follow the screen along any run (`Machine.run_tells`).

A platform that takes note of the drawings alone is behind from a clear to the next drawing, and
only then : the screen is the one of the last drawing, cleared if a clear came after it
(`framebuffer_eq`).
-/

namespace Chip8

namespace Callback

/-- The screen after a callback. -/
def framebuffer (s : Screen) : Callback → Screen
  | .clearScreen => s.clear
  | .screenUpdate seen => seen.screen
  | .init _ | .cycle | .beep => s

/-- The screen of the last drawing. -/
def drawn (s : Screen) : Callback → Screen
  | .screenUpdate seen => seen.screen
  | .init _ | .cycle | .clearScreen | .beep => s

/-- Whether a clear came after the last drawing. -/
def cleared (before : Bool) : Callback → Bool
  | .clearScreen => true
  | .screenUpdate _ => false
  | .init _ | .cycle | .beep => before

end Callback

theorem Screen.clear_clear (s : Screen) : s.clear.clear = s.clear := by
  simp only [Screen.clear, Array.size_replicate]

theorem framebuffer_step (c : Callback) (s : Screen) (before : Bool) :
    c.framebuffer (if before then s.clear else s) =
      if c.cleared before then (c.drawn s).clear else c.drawn s := by
  cases c with
  | clearScreen =>
    cases before
    · rfl
    · exact s.clear_clear
  | screenUpdate | init | cycle | beep => rfl

/-- The screen is the one of the last drawing, cleared if a clear came after it. -/
theorem framebuffer_eq (callbacks : List Callback) (s : Screen) (before : Bool) :
    callbacks.foldl Callback.framebuffer (if before then s.clear else s) =
      if callbacks.foldl Callback.cleared before then (callbacks.foldl Callback.drawn s).clear
      else callbacks.foldl Callback.drawn s := by
  induction callbacks generalizing s before with
  | nil => rfl
  | cons c callbacks ih =>
    rw [List.foldl_cons, framebuffer_step]
    exact ih _ _

namespace Machine

variable {m : Machine} {address : UInt16} {op : Operation} {effect : Effect}

/-- An operation tells the platform of the screen what it does to it : nothing, that it is
cleared, or a state with the new one. -/
theorem callbacks_execute (h : m.execute address op = .ok effect) :
    (effect.callbacks = [] ∧ effect.machine.state.screen = m.state.screen) ∨
      (effect.callbacks = [.clearScreen] ∧
        effect.machine.state.screen = m.state.screen.clear) ∨
      effect.callbacks = [.screenUpdate effect.machine.state] := by
  cases op <;> simp only [execute, State.skipIf_eq] at h
  case clear =>
    cases h
    exact .inr (.inl ⟨rfl, rfl⟩)
  case ret | call | storeDecimal | storeRegisters | loadRegisters =>
    split at h <;> cases h
    exact .inl ⟨rfl, rfl⟩
  case draw =>
    split at h
    · cases h
    · cases h
      exact .inr (.inr rfl)
  case raw => cases h
  all_goals
    cases h
    exact .inl ⟨rfl, rfl⟩

/-- What the platform is told follows the screen, from the machine before to the one after, and
all states that it is shown have the shape of the first. -/
structure Tells (m : Machine) (callbacks : List Callback) (m' : Machine) : Prop where
  screen : m'.state.screen = callbacks.foldl Callback.framebuffer m.state.screen
  seen : ∀ s, .screenUpdate s ∈ callbacks → m.state.SameShape s

theorem Tells.trans {m' m'' : Machine} {before after : List Callback} (h : Tells m before m')
    (hshape : m.state.SameShape m'.state) (h' : Tells m' after m'') :
    Tells m (before ++ after) m'' where
  screen := by rw [List.foldl_append, ← h.screen, h'.screen]
  seen s hs := (List.mem_append.1 hs).elim (h.seen s) fun hs => hshape.trans (h'.seen s hs)

/-- As long as the screen stays what it is, it is enough to tell that a cycle begins, and of
beeps. -/
theorem Tells.of_eq {m' : Machine} (h : m'.state.screen = m.state.screen)
    {callbacks : List Callback} (hquiet : ∀ c ∈ callbacks, c = .cycle ∨ c = .beep) :
    Tells m callbacks m' := by
  refine ⟨h.trans ?_, fun s hs => ?_⟩
  · generalize m.state.screen = screen
    induction callbacks with
    | nil => rfl
    | cons c callbacks ih =>
      have hrest := ih fun c' hc' => hquiet c' (List.mem_cons_of_mem c hc')
      rcases hquiet c List.mem_cons_self with rfl | rfl <;> exact hrest
  · rcases hquiet _ hs with hc | hc <;> cases hc

theorem tells_execute (h : m.execute address op = .ok effect) :
    Tells m effect.callbacks effect.machine := by
  have hshape := sameShape_execute h
  rcases callbacks_execute h with ⟨hcallbacks, hscreen⟩ | ⟨hcallbacks, hscreen⟩ | hcallbacks
  · rw [hcallbacks]
    exact .of_eq hscreen nofun
  · rw [hcallbacks]
    exact ⟨hscreen, fun s hs => by cases List.mem_singleton.1 hs⟩
  · rw [hcallbacks]
    refine ⟨rfl, fun s hs => ?_⟩
    cases List.mem_singleton.1 hs
    exact hshape

theorem tells_cycle (m : Machine) (keyboard : UInt16) (now : Nat) :
    Tells m (m.cycle keyboard now).callbacks (m.cycle keyboard now).machine := by
  obtain ⟨huntouched, beeps, hcallbacks⟩ | ⟨op, effect, -, hexecute, hcycle⟩ :=
    cycle_cases m keyboard now
  · rw [hcallbacks]
    refine .of_eq huntouched.screen fun c hc => ?_
    exact (List.mem_cons.1 hc).imp id List.eq_of_mem_replicate
  · have hscreen : (m.withKeyboard keyboard).fetched.state.screen = m.state.screen := rfl
    have hfetched : Tells m [.cycle] (m.withKeyboard keyboard).fetched :=
      .of_eq hscreen fun c hc => .inl (List.mem_singleton.1 hc)
    have hbegun : m.state.SameShape (m.withKeyboard keyboard).fetched.state :=
      (sameShape_withKeyboard m keyboard).trans (sameShape_fetched _)
    have hscreen' : (effect.machine.tick now).1.state.screen = effect.machine.state.screen := rfl
    have hticked : Tells effect.machine
        (List.replicate (effect.machine.tick now).2 .beep) (effect.machine.tick now).1 :=
      .of_eq hscreen' fun c hc => .inr (List.eq_of_mem_replicate hc)
    rw [hcycle]
    exact (hfetched.trans hbegun (tells_execute hexecute)).trans
      (hbegun.trans (sameShape_execute hexecute)) hticked

/-- The platform can follow the screen along any run, also one that fails. -/
theorem run_tells (m : Machine) (inputs : List Input) :
    Tells m (m.run inputs).callbacks (m.run inputs).machine := by
  induction inputs generalizing m with
  | nil => exact .of_eq rfl nofun
  | cons i is ih =>
    have hcycle := tells_cycle m i.keyboard i.now
    cases hfault : (m.cycle i.keyboard i.now).fault with
    | some fault =>
      rw [run_of_fault hfault]
      exact hcycle
    | none =>
      rw [run_of_ok hfault]
      exact hcycle.trans (sameShape_cycle m _ _) (ih _)

end Machine

end Chip8
