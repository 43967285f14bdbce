import Chip8.Proofs.Panels

/-!
# A terminal and what it shows

A terminal draws only the pixels that differ from the screen it drew last. That is enough as
long as it shows that screen, which `Display.Faithful` says : it holds of a terminal that has
drawn nothing yet on a blank grid (`faithful_of_fresh`), drawing a screen restores it
(`faithful_drawScreen`), and the other panels leave the pixels alone (`Faithful.leaves`).

`drawings_show` : whatever panels were drawn in whatever order, the next drawing of a screen
makes the terminal show it, and prints just the pixels that were not shown yet.
-/

namespace Chip8

/-- All pixels of a screen that is cleared are off. -/
theorem Screen.pixel_clear (s : Screen) (x y : Nat) : s.clear.pixel x y = false := by
  have hbyte (k : Nat) : s.clear.byte k = 0 := by
    simp only [Screen.byte, Screen.clear, Array.getD_eq_getD_getElem?, Array.getElem?_replicate]
    split_ifs <;> rfl
  simp only [Screen.pixel, hbyte]
  exact Nat.zero_testBit _

theorem Screen.pixel_blank (width height : UInt8) (x y : Nat) :
    (Screen.blank width height).pixel x y = false := by
  have hclear : (Screen.blank width height).clear = Screen.blank width height := by
    simp only [Screen.clear, Screen.blank, Array.size_replicate]
  rw [← hclear, pixel_clear]

namespace Terminal

/-! ## The screen drawn last -/

/-- The screen that was drawn last for a machine with the settings; a blank one if the terminal
has drawn none of its size. -/
def drawnScreen (t : Terminal) (settings : Settings) : Screen :=
  (Screen.blank settings.width settings.height).withBytes
    (t.shownScreen (Screen.blank settings.width settings.height))

/-- The terminal has drawn no pixels. -/
def Fresh (t : Terminal) : Prop := ∀ b ∈ t.lastScreen, b = 0

variable {t : Terminal} {s : State} {settings : Settings}

theorem size_shownScreen (t : Terminal) (s : Screen) :
    (t.shownScreen s).size = s.bytes.size := by
  unfold shownScreen
  split_ifs with hsize
  · exact hsize
  · exact Array.size_replicate

theorem shownScreen_congr (t : Terminal) {s s' : Screen} (h : s.bytes.size = s'.bytes.size) :
    t.shownScreen s = t.shownScreen s' := by
  rw [shownScreen, shownScreen, h]

theorem size_blank (settings : Settings) :
    (Screen.blank settings.width settings.height).bytes.size = settings.screenBytes := by
  simp [Screen.blank, Settings.screenBytes, Settings.pixels]

/-- The screen drawn last depends on the geometry of the machine alone. -/
theorem drawnScreen_eq (t : Terminal) (hs : s.WellFormed) :
    t.drawnScreen s.settings = s.screen.withBytes (t.shownScreen s.screen) := by
  have hsize := (size_blank s.settings).trans hs.screen.symm
  rw [drawnScreen, shownScreen_congr t hsize]
  simp only [Screen.withBytes, Screen.blank, hs.width, hs.height]

/-- After a drawing the screen drawn last is the one that was drawn. -/
theorem drawnScreen_drawScreen (t : Terminal) (hs : s.WellFormed) :
    (t.drawScreen s).1.drawnScreen s.settings = s.screen := by
  rw [drawnScreen_eq _ hs]
  exact congrArg s.screen.withBytes (if_pos rfl)

theorem drawnScreen_of_fresh (ht : t.Fresh) (settings : Settings) :
    t.drawnScreen settings = Screen.blank settings.width settings.height := by
  have hzero : t.shownScreen (Screen.blank settings.width settings.height) =
      (Screen.blank settings.width settings.height).bytes := by
    unfold shownScreen
    split_ifs with hsize
    · refine Array.eq_replicate_iff.2 ⟨?_, ht⟩
      rw [hsize]
      exact Array.size_replicate
    · rw [Screen.blank, Array.size_replicate]
  rw [drawnScreen, hzero]
  rfl

/-! ## Displays -/

/-- A terminal together with what it shows. -/
structure Display where
  /-- The terminal. -/
  terminal : Terminal
  /-- What it shows. -/
  grid : Grid

/-- A panel that is drawn. -/
inductive Drawing where
  /-- The screen of a state. -/
  | screen (s : State)
  /-- The status lines and the call stack of a state, as far as they are drawn. -/
  | status (s : State)
  /-- The system calls. -/
  | syscalls

namespace Display

/-- The display after a panel is drawn. -/
def draw (d : Display) : Drawing → Display
  | .screen s => ⟨(d.terminal.drawScreen s).1, d.grid.applyAll (d.terminal.drawScreen s).2⟩
  | .status s => { d with grid := d.grid.applyAll (drawStatus s).commands }
  | .syscalls => { d with grid := d.grid.applyAll d.terminal.drawSyscalls }

/-- The display after panels are drawn in order. -/
def drawAll (d : Display) (drawings : List Drawing) : Display := drawings.foldl draw d

/-- The terminal shows the screen that was drawn last. -/
def Faithful (d : Display) (settings : Settings) : Prop :=
  d.grid.Shows (d.terminal.drawnScreen settings)

variable {d : Display}

theorem faithful_of_fresh (ht : t.Fresh) (settings : Settings) :
    (Display.mk t .blank).Faithful settings := by
  intro x _ y _
  show ' ' = pixelChar ((t.drawnScreen settings).pixel x y)
  rw [drawnScreen_of_fresh ht, Screen.pixel_blank]
  rfl

/-- Commands that leave the area of the pixels alone leave the display faithful. -/
theorem Faithful.leaves (hd : d.Faithful settings) {commands : List Command}
    (h : Grid.Leaves screenArea commands) {t : Terminal}
    (ht : t.lastScreen = d.terminal.lastScreen) :
    (Display.mk t (d.grid.applyAll commands)).Faithful settings := by
  have hdrawn : t.drawnScreen settings = d.terminal.drawnScreen settings := by
    simp only [drawnScreen, shownScreen, ht]
  intro x hx y hy
  rw [hdrawn] at hx hy ⊢
  rw [← hd x hx y hy]
  exact h d.grid _ _ ⟨Nat.le_add_right _ _, Nat.le_add_right _ _⟩

/-- A faithful terminal shows a screen once it is drawn. -/
theorem shows_drawScreen (hd : d.Faithful s.settings) (hs : s.WellFormed) :
    (d.draw (.screen s)).grid.Shows s.screen := by
  rw [Faithful, drawnScreen_eq _ hs] at hd
  exact Grid.shows_screenPanel hs.wellFormed_screen (size_shownScreen _ _) hd

theorem faithful_drawScreen (hd : d.Faithful s.settings) (hs : s.WellFormed) :
    (d.draw (.screen s)).Faithful s.settings := by
  show Grid.Shows _ ((d.terminal.drawScreen s).1.drawnScreen s.settings)
  rw [drawnScreen_drawScreen _ hs]
  exact shows_drawScreen hd hs

theorem faithful_draw (hd : d.Faithful settings) {drawing : Drawing}
    (h : ∀ s, drawing = .screen s → s.WellFormed ∧ s.settings = settings) :
    (d.draw drawing).Faithful settings := by
  cases drawing with
  | screen s =>
    obtain ⟨hs, rfl⟩ := h s rfl
    exact faithful_drawScreen hd hs
  | status s => exact hd.leaves (leaves_statusPanel s) rfl
  | syscalls => exact hd.leaves (leaves_syscallPanel _) rfl

theorem faithful_drawAll (hd : d.Faithful settings) {drawings : List Drawing}
    (h : ∀ s, .screen s ∈ drawings → s.WellFormed ∧ s.settings = settings) :
    (d.drawAll drawings).Faithful settings := by
  induction drawings generalizing d with
  | nil => exact hd
  | cons drawing drawings ih =>
    have hfirst : (d.draw drawing).Faithful settings := faithful_draw hd fun s hs =>
      h s (List.mem_cons.2 (.inl hs.symm))
    exact ih hfirst fun s hs => h s (List.mem_cons_of_mem drawing hs)

/-- A faithful terminal prints the pixels of a screen that it does not show yet, in reading
order, and no others. -/
theorem drawScreen_eq (hd : d.Faithful s.settings) (hs : s.WellFormed) :
    (d.terminal.drawScreen s).2 = s.screen.places.flatMap fun p =>
      if d.grid.cell (statusColumn.toNat + p.1) (screenRow.toNat + p.2) =
          pixelChar (s.screen.pixel p.1 p.2) then []
      else pixelCommands s.screen p := by
  rw [Faithful, drawnScreen_eq _ hs] at hd
  refine (screenPanel_eq hs.wellFormed_screen (size_shownScreen _ _)).trans ?_
  refine List.flatMap_congr fun p hp => ?_
  obtain ⟨hx, hy⟩ := Screen.mem_places.1 hp
  rw [hd p.1 hx p.2 hy, changedCommands]
  simp only [pixelChar_inj, eq_comm]

/-- After any drawings on a blank grid, drawing a screen of the machine makes the terminal show
it : a full block for every pixel that is on, and a blank for every other one. What it prints are
the pixels that are not shown yet. The other panels never touch a pixel. -/
theorem drawings_show {settings : Settings} {t : Terminal} (ht : t.Fresh)
    {drawings : List Drawing}
    (h : ∀ s, .screen s ∈ drawings → s.WellFormed ∧ s.settings = settings) :
    let d := (Display.mk t .blank).drawAll drawings
    (∀ s : State, s.WellFormed → s.settings = settings →
      (∀ x < settings.width.toNat, ∀ y < settings.height.toNat,
        (d.draw (.screen s)).grid.cell (20 + x) (5 + y) =
          if s.screen.pixel x y then '█' else ' ') ∧
      (d.terminal.drawScreen s).2 = s.screen.places.flatMap fun p =>
        if d.grid.cell (20 + p.1) (5 + p.2) = if s.screen.pixel p.1 p.2 then '█' else ' ' then []
        else pixelCommands s.screen p) ∧
    ∀ (s : State) (x y : Nat), 20 ≤ x → 5 ≤ y →
      (d.draw (.status s)).grid.cell x y = d.grid.cell x y ∧
      (d.draw .syscalls).grid.cell x y = d.grid.cell x y := by
  intro d
  have hd : d.Faithful settings := faithful_drawAll (faithful_of_fresh ht settings) h
  refine ⟨?_, fun s x y hx hy => ⟨?_, ?_⟩⟩
  · rintro s hs rfl
    refine ⟨fun x hx y hy => ?_, drawScreen_eq hd hs⟩
    rw [← hs.width] at hx
    rw [← hs.height] at hy
    exact shows_drawScreen hd hs x hx y hy
  · exact leaves_statusPanel s d.grid x y ⟨hx, hy⟩
  · exact leaves_syscallPanel d.terminal.syscalls d.grid x y ⟨hx, hy⟩

/-- The last pixel of the smallest screen, which is on in one state of the machine and off in
another, with all other panels drawn in between. -/
theorem drawings_show_smallest : ∃ lit dark : State, lit.screen.pixel 7 15 = true ∧
    dark.screen.pixel 7 15 = false ∧
    let d := (Display.mk {} .blank).drawAll [.screen lit, .status lit, .syscalls]
    (d.draw (.screen lit)).grid.cell (20 + 7) (5 + 15) = '█' ∧
      (d.draw (.screen dark)).grid.cell (20 + 7) (5 + 15) = ' ' := by
  let dark : State := .initial .smallest
  let lit : State := { dark with screen := dark.screen.withBytes (Array.replicate 16 0xFF) }
  have hdark : dark.WellFormed := State.WellFormed.initial Settings.valid_smallest
  have hlit : lit.WellFormed := hdark.of_sameShape (.withScreen rfl rfl rfl)
  have hon : lit.screen.pixel 7 15 = true := by decide +kernel
  have hoff : dark.screen.pixel 7 15 = false := by decide +kernel
  have hfresh : Fresh {} := fun b hb => absurd hb (Array.not_mem_empty b)
  have hdrawings : ∀ s, .screen s ∈ [Drawing.screen lit, .status lit, .syscalls] →
      s.WellFormed ∧ s.settings = .smallest := by
    intro s hs
    obtain rfl : s = lit := by simpa using hs
    exact ⟨hlit, rfl⟩
  obtain ⟨hscreen, -⟩ := drawings_show hfresh hdrawings
  have hshown := (hscreen lit hlit rfl).1 7 (by decide) 15 (by decide)
  have hblank := (hscreen dark hdark rfl).1 7 (by decide) 15 (by decide)
  rw [hon, if_pos rfl] at hshown
  rw [hoff, if_neg Bool.false_ne_true] at hblank
  exact ⟨lit, dark, hon, hoff, hshown, hblank⟩

end Display

end Terminal

end Chip8
