import Chip8.Proofs.Display
import Chip8.Proofs.Framebuffer

/-!
# What a terminal shows of a run

A terminal that follows the callbacks of a machine draws the screen with every sprite, and notes
that the screen is cleared without drawing it. So it shows the screen of the last drawing
(`Display.Following`), whatever was cleared and whatever beeped since, and one callback after the
other keeps that up (`Display.following_handle`).

`Machine.run_shows_drawn` : along any run the terminal shows the screen of the last drawing. That
is the screen of the machine exactly if no clear came after it or nothing was on then.
`Machine.run_shows_cleared` is a run where it is not : pixels that were drawn stay on the terminal
after the screen is cleared.
-/

namespace Chip8

namespace Terminal

/-- Terminals that show a screen show just those of its size with the same pixels. -/
theorem Grid.Shows.iff_pixel {g : Grid} {s s' : Screen} (h : g.Shows s)
    (hwidth : s'.width = s.width) (hheight : s'.height = s.height) :
    g.Shows s' ↔ ∀ x < s.width.toNat, ∀ y < s.height.toNat, s'.pixel x y = s.pixel x y := by
  rw [Shows, hwidth, hheight]
  refine forall₂_congr fun x hx => forall₂_congr fun y hy => ?_
  rw [h x hx y hy, pixelChar_inj, eq_comm]

theorem Grid.Shows.cell_eq {g : Grid} {s : Screen} (h : g.Shows s) {x y : Nat}
    (hx : x < s.width.toNat) (hy : y < s.height.toNat) :
    g.cell (20 + x) (5 + y) = if s.pixel x y then '█' else ' ' :=
  h x hx y hy

namespace Display

/-- The display after a system call is noted. -/
def noteSyscall (d : Display) (call : Syscall) : Display :=
  ⟨(d.terminal.noteSyscall call).1, d.grid.applyAll (d.terminal.noteSyscall call).2⟩

/-- The display after a callback. -/
def handle (d : Display) (c : Callback) : Display :=
  ⟨(d.terminal.handle c).1, d.grid.applyAll (d.terminal.handle c).2⟩

/-- The display after callbacks in order. -/
def handleAll (d : Display) (callbacks : List Callback) : Display :=
  ⟨(d.terminal.handleAll callbacks).1, d.grid.applyAll (d.terminal.handleAll callbacks).2⟩

variable {d : Display} {settings : Settings} {shown : Screen}

theorem handleAll_cons (d : Display) (c : Callback) (callbacks : List Callback) :
    d.handleAll (c :: callbacks) = (d.handle c).handleAll callbacks := by
  simp only [handleAll, handle, Terminal.handleAll, Grid.applyAll_append]

/-- A terminal that is taken over draws the screen that it is told, once the call is noted. -/
theorem handle_screenUpdate (h : d.terminal.active = true) (seen : State) :
    d.handle (.screenUpdate seen) = (d.noteSyscall .draw).draw (.screen seen) := by
  have hactive : (d.terminal.noteSyscall .draw).1.active = true := h
  simp only [handle, Terminal.handle, noteSyscall, draw, hactive, if_true, Grid.applyAll_append]

/-- A terminal that is taken over shows a screen of the machine, and drew that one last. -/
structure Following (d : Display) (settings : Settings) (shown : Screen) : Prop where
  active : d.terminal.active = true
  faithful : d.Faithful settings
  last : d.terminal.drawnScreen settings = shown

theorem Following.shows (h : d.Following settings shown) : d.grid.Shows shown := by
  rw [← h.last]
  exact h.faithful

theorem following_of_fresh {t : Terminal} (hactive : t.active = true) (ht : t.Fresh)
    (settings : Settings) :
    (Display.mk t .blank).Following settings (Screen.blank settings.width settings.height) :=
  ⟨hactive, faithful_of_fresh ht settings, drawnScreen_of_fresh ht settings⟩

/-- A system call that is noted is drawn next to the pixels. -/
theorem Following.noteSyscall (h : d.Following settings shown) (call : Syscall) :
    (d.noteSyscall call).Following settings shown where
  active := h.active
  faithful := by
    simp only [Display.noteSyscall, Terminal.noteSyscall, h.active, if_true]
    exact h.faithful.leaves (leaves_syscallPanel _) rfl
  last := h.last

/-- A drawing makes the terminal show the state that it is told; nothing else that it is told
changes what pixels it shows. -/
theorem following_handle (h : d.Following settings shown) {c : Callback}
    (hseen : ∀ s, c = .screenUpdate s → s.WellFormed ∧ s.settings = settings) :
    (d.handle c).Following settings (c.drawn shown) := by
  cases c with
  | init | cycle => exact h
  | clearScreen => exact h.noteSyscall .clear
  | beep => exact h.noteSyscall .beep
  | screenUpdate seen =>
    obtain ⟨hs, rfl⟩ := hseen seen rfl
    have hnoted := h.noteSyscall .draw
    rw [handle_screenUpdate h.active]
    exact ⟨hnoted.active, faithful_drawScreen hnoted.faithful hs, drawnScreen_drawScreen _ hs⟩

theorem following_handleAll (h : d.Following settings shown) {callbacks : List Callback}
    (hseen : ∀ s, .screenUpdate s ∈ callbacks → s.WellFormed ∧ s.settings = settings) :
    (d.handleAll callbacks).Following settings (callbacks.foldl Callback.drawn shown) := by
  induction callbacks generalizing d shown with
  | nil => exact h
  | cons c callbacks ih =>
    have hfirst : (d.handle c).Following settings (c.drawn shown) :=
      following_handle h fun s hs => hseen s (List.mem_cons.2 (.inl hs.symm))
    rw [handleAll_cons, List.foldl_cons]
    exact ih hfirst fun s hs => hseen s (List.mem_cons_of_mem c hs)

end Display

end Terminal

namespace Machine

open Terminal

variable {m : Machine} {t : Terminal}

/-- What a fresh terminal that is taken over shows of a machine with a blank screen, as it
follows a run of it. -/
theorem following_run (hm : m.state.WellFormed)
    (hblank : m.state.screen = Screen.blank m.state.settings.width m.state.settings.height)
    (hactive : t.active = true) (ht : t.Fresh) (inputs : List Input) :
    ((Display.mk t .blank).handleAll (m.run inputs).callbacks).Following m.state.settings
      ((m.run inputs).callbacks.foldl Callback.drawn m.state.screen) := by
  rw [hblank]
  refine Display.following_handleAll (Display.following_of_fresh hactive ht _) fun s hs => ?_
  have hshape := (run_tells m inputs).seen s hs
  exact ⟨hm.of_sameShape hshape, hshape.settings⟩

theorem screen_run (m : Machine) (inputs : List Input) :
    let r := m.run inputs
    let drawn := r.callbacks.foldl Callback.drawn m.state.screen
    r.machine.state.screen =
      if r.callbacks.foldl Callback.cleared false then drawn.clear else drawn :=
  (run_tells m inputs).screen.trans (framebuffer_eq _ _ false)

/-- Along any run that starts from a blank screen, a fresh terminal that is taken over shows the
screen of the last drawing. The screen of the machine is that one, cleared if a clear came after
it. So the terminal shows the screen of the machine exactly if no clear did, or if the last
drawing left no pixel on. -/
theorem run_shows_drawn (hm : m.state.WellFormed)
    (hblank : m.state.screen = Screen.blank m.state.settings.width m.state.settings.height)
    (hactive : t.active = true) (ht : t.Fresh) (inputs : List Input) :
    let r := m.run inputs
    let g := ((Display.mk t .blank).handleAll r.callbacks).grid
    let drawn := r.callbacks.foldl Callback.drawn m.state.screen
    let cleared := r.callbacks.foldl Callback.cleared false
    g.Shows drawn ∧ r.machine.state.screen = (if cleared then drawn.clear else drawn) ∧
      (g.Shows r.machine.state.screen ↔
        (cleared = true → ∀ x < drawn.width.toNat, ∀ y < drawn.height.toNat,
          drawn.pixel x y = false)) := by
  intro r g drawn cleared
  have hfollowing := following_run hm hblank hactive ht inputs
  have hscreen : r.machine.state.screen = if cleared then drawn.clear else drawn :=
    screen_run m inputs
  refine ⟨hfollowing.shows, hscreen, ?_⟩
  rw [hscreen]
  by_cases hcleared : cleared = true
  · rw [if_pos hcleared, hfollowing.shows.iff_pixel drawn.width_clear drawn.height_clear]
    simp only [Screen.pixel_clear, eq_comm (a := false), hcleared, true_implies]
    exact Iff.rfl
  · rw [if_neg hcleared]
    exact ⟨fun _ h => absurd h hcleared, fun _ => hfollowing.shows⟩

/-- A glyph that is drawn, cleared and drawn again is on the terminal. -/
theorem run_shows_drawn_again : ∃ (m : Machine) (inputs : List Input), inputs.length = 3 ∧
    (m.run inputs).machine.state.screen.pixel 0 0 = true ∧
    ((Display.mk { active := true } .blank).handleAll (m.run inputs).callbacks).grid.Shows
      (m.run inputs).machine.state.screen := by
  let larger : Settings := { Settings.smallest with memorySize := 0x206 }
  let m : Machine :=
    ⟨.holding larger 0x200 [0xD0, 0x05, 0x00, 0xE0, 0xD0, 0x05], .ofSeed 8, none⟩
  let inputs : List Input := List.replicate 3 ⟨0, 0⟩
  have hvalid : Settings.Valid { Settings.smallest with memorySize := 0x206 } := rfl
  have hm : m.state.WellFormed := .holding hvalid _ _
  have hfresh : Fresh { active := true } := fun b hb => absurd hb (Array.not_mem_empty b)
  obtain ⟨-, -, hshows⟩ := run_shows_drawn hm rfl rfl hfresh inputs
  have hcleared : (m.run inputs).callbacks.foldl Callback.cleared false ≠ true := by
    decide +kernel
  exact ⟨m, inputs, rfl, by decide +kernel, hshows.2 fun h => absurd h hcleared⟩

/-- A pixel that was drawn stays on the terminal after the screen is cleared. -/
theorem run_shows_cleared : ∃ built m, Machine.new {} (.ofSeed 8) = .ok built ∧
    built.load [0xD0, 0x05, 0x00, 0xE0] = .ok m ∧
    let r := m.run [⟨0, 0⟩, ⟨0, 0⟩]
    let g := ((Display.mk { active := true } .blank).handleAll r.callbacks).grid
    r.fault = none ∧ r.machine.state.screen.pixel 0 0 = false ∧
      g.cell (20 + 0) (5 + 0) = '█' ∧ ¬g.Shows r.machine.state.screen := by
  let built : Machine := ⟨.initial {}, .ofSeed 8, none⟩
  let m : Machine := ⟨.holding {} 0x200 [0xD0, 0x05, 0x00, 0xE0], .ofSeed 8, none⟩
  have hvalid : Settings.Valid {} := rfl
  have hload : built.load [0xD0, 0x05, 0x00, 0xE0] = .ok m := load_initial _ (by decide)
  have hm : m.state.WellFormed := .holding hvalid _ _
  have hfresh : Fresh { active := true } := fun b hb => absurd hb (Array.not_mem_empty b)
  refine ⟨built, m, new_eq_ok hvalid _, hload, ?_⟩
  intro r g
  let drawn := r.callbacks.foldl Callback.drawn m.state.screen
  have hshows : g.Shows drawn := (following_run hm rfl rfl hfresh [⟨0, 0⟩, ⟨0, 0⟩]).shows
  let screen := r.machine.state.screen
  obtain ⟨hok, hoff, hon, ⟨hwidth, hheight⟩, hwidth', hheight'⟩ : r.fault = none ∧
      screen.pixel 0 0 = false ∧ drawn.pixel 0 0 = true ∧
      (0 < drawn.width.toNat ∧ 0 < drawn.height.toNat) ∧
      0 < screen.width.toNat ∧ 0 < screen.height.toNat := by
    decide +kernel
  have hlit := hshows.cell_eq hwidth hheight
  rw [hon, if_pos rfl] at hlit
  refine ⟨hok, hoff, hlit, fun hsame => ?_⟩
  have hdark := hsame.cell_eq hwidth' hheight'
  rw [hoff, hlit] at hdark
  exact absurd hdark (by decide)

end Machine

end Chip8
