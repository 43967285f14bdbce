import Chip8.Proofs.Redrawing
import Mathlib.Data.List.GetD

/-!
# The system calls on the terminal

A terminal logs what the machine tells it, each time under a name (`Callback.logged?`), and keeps
the latest ten names (`Display.names_performAll`). If it is taken over it draws them all, each in a
row of eight columns : shorter names and rows without one are filled up with blanks, so that nothing
is left of what a row showed before (`shows_syscallPanel`). Neither the pixels nor the status reach
these columns (`leaves_screenPanel`, `leaves_drawStatus_syscallArea`).

`Display.performAll_shows_log` : whatever a terminal went through, taken over or not, its log holds
the latest ten names, newest first. A terminal that is taken over shows just that after a callback
that it logs, and cycles that begin later change nothing of it.
-/

namespace Chip8

/-- The name under which a terminal logs what it is told. -/
def Callback.logged? : Callback → Option String
  | .clearScreen => some "CLS"
  | .screenUpdate _ => some "DRW"
  | .beep => some "BEEP"
  | .init _ | .cycle => none

namespace Terminal

variable {t : Terminal} {row x : Nat}

/-! ## The rows of the panel -/

/-- The names of the system calls of a terminal. -/
def names (t : Terminal) : List String := t.syscalls.map Syscall.name

/-- The cells of the system calls : ten rows of eight columns. -/
def syscallArea (x y : Nat) : Prop := (8 ≤ x ∧ x < 16) ∧ 1 ≤ y ∧ y ≤ 10

/-- The grid shows names one below the other, filled up with blanks, and no others. -/
def Grid.ShowsNames (g : Grid) (names : List String) : Prop :=
  ∀ row < 10, ∀ x < 8, g.cell (8 + x) (1 + row) = (names.getD row "").toList.getD x ' '

/-- Text that is filled up with blanks shows in all of its columns. -/
theorem getD_rightpad (text : List Char) {width : Nat} (hx : x < width) (before : Char) :
    (text.rightpad width ' ').getD x before = text.getD x ' ' := by
  rw [List.rightpad]
  rcases Nat.lt_or_ge x text.length with hin | hout
  · rw [List.getD_append _ _ _ _ hin, List.getD_eq_getElem _ _ hin, List.getD_eq_getElem _ _ hin]
  · rw [List.getD_append_right _ _ _ _ hout, List.getD_replicate _ (by omega),
      List.getD_eq_default _ _ hout]

theorem toNat_syscallRow (hrow : row < 10) : (UInt16.ofNat row + 1).toNat = 1 + row := by
  rw [UInt16.toNat_add, UInt16.toNat_ofNat', UInt16.toNat_one]
  omega

theorem shows_syscallRow (g : Grid) (calls : List Syscall) (hrow : row < 10) (hx : x < 8) :
    (g.applyAll (syscallRow calls row)).cell (8 + x) (1 + row) =
      ((calls.map Syscall.name).getD row "").toList.getD x ' ' := by
  rw [syscallRow, Grid.cell_written, toNat_syscallRow hrow, show syscallColumn.toNat = 8 from rfl,
    if_pos ⟨Nat.le_add_right 8 x, rfl⟩, Nat.add_sub_cancel_left, String.toList_ofList,
    getD_rightpad _ hx,
    ← List.getElem?_map, ← List.getD_eq_getElem?_getD]

theorem leaves_syscallRow (calls : List Syscall) (hrow : row < 10) :
    Grid.Leaves (fun _ y => y ≠ 1 + row) (syscallRow calls row) :=
  .written fun _ _ hy => .inl (toNat_syscallRow hrow ▸ hy)

/-- Drawing the system calls makes the terminal show them, whatever it showed before. -/
theorem shows_syscallPanel (g : Grid) (calls : List Syscall) :
    (g.applyAll (syscallPanel calls)).ShowsNames (calls.map Syscall.name) := by
  intro row hrow x hx
  have hlater (j : Nat) (hj : row < j) (hj' : j < 10) :
      Grid.Leaves (fun _ y => y = 1 + row) (syscallRow calls j) :=
    (leaves_syscallRow calls hj').mono fun _ y hy => by omega
  exact (Grid.Leaves.cell_flatMap_range hrow hlater g rfl).trans (shows_syscallRow _ calls hrow hx)

/-! ## The other panels -/

/-- No pixel is drawn to the left of the first one : the last pixel of the widest screen is in
column 267, so that no column wraps. -/
theorem leaves_screenPanel {s : Screen} (hs : s.WellFormed) (before : Array UInt8) :
    Grid.Leaves (fun x _ => x < statusColumn.toNat) (screenPanel before s) := by
  refine .flatMap fun k _ => ?_
  rw [byteCells_eq_flatMap]
  refine .flatMap fun bit hbit => ?_
  rw [pixelCells_eq]
  split_ifs
  · exact .nil
  · refine .written fun x _ hx => .inr (.inl ?_)
    have hbyte : k % s.byteWidth < s.byteWidth := Nat.mod_lt k hs.byteWidth_pos
    have hwidth := hs.width_eq
    have hmost := s.width.toNat_lt
    have hbit' := List.mem_range.1 hbit
    rw [UInt16.toNat_add, UInt16.toNat_add, UInt16.toNat_ofNat', UInt16.toNat_ofNat']
    rw [show statusColumn.toNat = 20 from rfl] at hx ⊢
    omega

/-- The system calls stand between the call stack and the status lines. -/
theorem leaves_drawStatus_syscallArea (s : State) :
    Grid.Leaves syscallArea (drawStatus s).commands := by
  refine (leaves_outside_statusArea s).mono fun x y hxy => ?_
  obtain ⟨⟨hleft, hright⟩, -⟩ := hxy
  have hcolumn : statusColumn.toNat = 20 := rfl
  unfold statusArea
  omega

/-! ## Logging -/

/-- A call that is noted comes before those that were noted already, of which the latest stay. -/
theorem names_noteSyscall {log : List String} (h : t.names = log.take 10) (call : Syscall) :
    (t.noteSyscall call).1.names = (call.name :: log).take 10 := by
  show ((call :: t.syscalls).take 10).map Syscall.name = _
  rw [List.map_take, List.map_cons, ← names, h, List.take_succ_cons, List.take_succ_cons,
    List.take_take, Nat.min_eq_left (by decide)]

theorem syscalls_handleKey (t : Terminal) (event : KeyEvent) (down : UInt16) (now : Nat) :
    (t.handleKey event down now).1.syscalls = t.syscalls := by
  unfold handleKey
  split_ifs
  · rfl
  · rfl
  · split <;> rfl

/-- Operations on a terminal that keep its system calls keep them in a row. -/
theorem syscalls_foldl {α : Type} {f : Terminal × UInt16 → α → Terminal × UInt16}
    (h : ∀ x a, (f x a).1.syscalls = x.1.syscalls) (items : List α) (x : Terminal × UInt16) :
    (items.foldl f x).1.syscalls = x.1.syscalls := by
  induction items generalizing x with
  | nil => rfl
  | cons a items ih => exact (ih (f x a)).trans (h x a)

theorem syscalls_releaseStale (t : Terminal) (down : UInt16) (now : Nat) :
    (t.releaseStale down now).1.syscalls = t.syscalls := by
  have hrelease (x : Terminal × UInt16) (key : Nibble) :
      (x.1.release x.2 key).1.syscalls = x.1.syscalls := rfl
  exact syscalls_foldl hrelease _ (t, down)

theorem syscalls_poll (t : Terminal) (events : List KeyEvent) (down : UInt16) (now : Nat) :
    (t.poll events down now).1.syscalls = t.syscalls :=
  (syscalls_releaseStale _ _ now).trans
    (syscalls_foldl (fun x e => syscalls_handleKey x.1 e x.2 now) events (t, down))

/-- The begin of a cycle logs nothing, and draws the status if anything. -/
theorem beginCycle_cases (t : Terminal) (events : List KeyEvent) (s : State) (now : Nat) :
    (t.beginCycle events s now).1.syscalls = t.syscalls ∧
      ((t.beginCycle events s now).2.2 = {} ∨
        ∃ seen, (t.beginCycle events s now).2.2 = drawStatus seen) := by
  have hpoll := syscalls_poll t events s.keyboard now
  unfold beginCycle
  generalize t.poll events s.keyboard now = polled at hpoll
  split
  · dsimp only
    split
    · split
      · exact ⟨hpoll, .inr ⟨_, rfl⟩⟩
      · exact ⟨hpoll, .inl rfl⟩
    · exact ⟨hpoll, .inr ⟨_, rfl⟩⟩
  · exact ⟨rfl, .inl rfl⟩

namespace Display

/-! ## Steps -/

/-- What a terminal goes through. -/
inductive Step where
  /-- The machine tells it something. -/
  | handle (c : Callback)
  /-- It is taken over for a machine. -/
  | enter (s : State)
  /-- It is given back. -/
  | restore
  /-- A cycle begins. -/
  | beginCycle (events : List KeyEvent) (s : State) (now : Nat)
  /-- It counts as taken over or not from now on. -/
  | switch (on : Bool)

namespace Step

/-- The name under which a step is logged. -/
def logged? : Step → Option String
  | handle c => c.logged?
  | enter _ | restore | beginCycle _ _ _ | switch _ => none

/-- The machine tells nothing, and the terminal is neither taken over nor given back. -/
def Quiet : Step → Prop
  | beginCycle _ _ _ | switch _ => True
  | handle _ | enter _ | restore => False

end Step

/-- The display after a step. -/
def perform (d : Display) : Step → Display
  | .handle c => d.handle c
  | .enter s => ⟨(d.terminal.enter s).1, d.grid.applyAll (d.terminal.enter s).2⟩
  | .restore => ⟨d.terminal.restore.1, d.grid.applyAll d.terminal.restore.2⟩
  | .beginCycle events s now =>
    let begun := d.terminal.beginCycle events s now
    ⟨begun.1, d.grid.applyAll begun.2.2.commands⟩
  | .switch on => { d with terminal := { d.terminal with active := on } }

/-- The display after steps in order. -/
def performAll (d : Display) (steps : List Step) : Display := steps.foldl perform d

variable {d : Display} {c : Callback} {step : Step} {steps : List Step} {log : List String}

/-! ## The log -/

theorem names_handle (h : d.terminal.names = log.take 10) (c : Callback) :
    (d.handle c).terminal.names = (c.logged?.toList ++ log).take 10 := by
  cases c with
  | init | cycle => exact h
  | clearScreen => exact names_noteSyscall h .clear
  | beep => exact names_noteSyscall h .beep
  | screenUpdate seen =>
    have hnoted := names_noteSyscall h .draw
    simp only [handle, Terminal.handle]
    split_ifs <;> exact hnoted

theorem names_perform (h : d.terminal.names = log.take 10) (step : Step) :
    (d.perform step).terminal.names = (step.logged?.toList ++ log).take 10 := by
  cases step with
  | handle c => exact names_handle h c
  | enter s => exact h
  | restore =>
    simp only [perform, restore]
    split_ifs <;> exact h
  | beginCycle events s now =>
    have hkept := (beginCycle_cases d.terminal events s now).1
    exact (congrArg (List.map Syscall.name) hkept).trans h
  | switch on => exact h

/-- After any steps the log holds the latest ten names. What was logged before them is kept apart
from them, with no limit, so that the induction can go on behind the first step. -/
theorem names_performAll (h : d.terminal.names = log.take 10) (steps : List Step) :
    (d.performAll steps).terminal.names =
      ((steps.filterMap Step.logged?).reverse ++ log).take 10 := by
  induction steps generalizing d log with
  | nil => exact h
  | cons step steps ih =>
    refine (ih (names_perform h step)).trans ?_
    rw [List.filterMap_cons]
    cases step.logged? with
    | none => rfl
    | some name => simp

/-! ## What is shown -/

/-- The terminal shows its system calls. -/
def ShowsLog (d : Display) : Prop := d.grid.ShowsNames d.terminal.names

/-- Commands that leave the area of the system calls alone leave them shown. -/
theorem ShowsLog.leaves (h : d.ShowsLog) {commands : List Command}
    (hcommands : Grid.Leaves syscallArea commands) {t : Terminal}
    (ht : t.syscalls = d.terminal.syscalls) :
    (Display.mk t (d.grid.applyAll commands)).ShowsLog := by
  intro row hrow x hx
  have hin : syscallArea (8 + x) (1 + row) := by
    unfold syscallArea
    omega
  show _ = ((t.syscalls.map Syscall.name).getD row "").toList.getD x ' '
  rw [ht, hcommands d.grid _ _ hin]
  exact h row hrow x hx

theorem active_handle (d : Display) (c : Callback) :
    (d.handle c).terminal.active = d.terminal.active := by
  cases c with
  | screenUpdate seen =>
    simp only [handle, Terminal.handle]
    split_ifs <;> rfl
  | init | cycle | clearScreen | beep => rfl

theorem showsLog_noteSyscall (h : d.terminal.active = true) (call : Syscall) :
    (d.noteSyscall call).ShowsLog := by
  have hdrawn : (d.terminal.noteSyscall call).2 =
      syscallPanel (d.terminal.noteSyscall call).1.syscalls := if_pos h
  have hshown := shows_syscallPanel d.grid (d.terminal.noteSyscall call).1.syscalls
  rw [← hdrawn] at hshown
  exact hshown

/-- A terminal that is taken over shows its system calls after each callback that is logged. -/
theorem showsLog_handle (h : d.terminal.active = true) (hc : c.logged?.isSome)
    (hseen : ∀ s, c = .screenUpdate s → s.screen.WellFormed) : (d.handle c).ShowsLog := by
  cases c with
  | init | cycle => exact absurd hc Bool.false_ne_true
  | clearScreen => exact showsLog_noteSyscall h .clear
  | beep => exact showsLog_noteSyscall h .beep
  | screenUpdate seen =>
    rw [handle_screenUpdate h]
    refine (showsLog_noteSyscall h .draw).leaves ?_ rfl
    refine (leaves_screenPanel (hseen seen rfl) _).mono fun x y hxy => ?_
    exact Nat.lt_trans hxy.1.2 (by decide)

theorem ShowsLog.perform (h : d.ShowsLog) (hstep : step.Quiet) : (d.perform step).ShowsLog := by
  cases step with
  | handle | enter | restore => exact hstep.elim
  | beginCycle events s now =>
    obtain ⟨hkept, hnone | ⟨seen, hstatus⟩⟩ := beginCycle_cases d.terminal events s now
    · exact h.leaves (hnone ▸ .nil) hkept
    · exact h.leaves (hstatus ▸ leaves_drawStatus_syscallArea seen) hkept
  | switch on => exact h

theorem ShowsLog.performAll (h : d.ShowsLog) (hsteps : ∀ step ∈ steps, step.Quiet) :
    (d.performAll steps).ShowsLog := by
  induction steps generalizing d with
  | nil => exact h
  | cons step steps ih =>
    obtain ⟨hstep, hrest⟩ := List.forall_mem_cons.1 hsteps
    exact ih (h.perform hstep) hrest

/-- After any steps of a terminal that had logged nothing before, taken over or not, the log holds
the latest ten names under which callbacks were logged, newest first. If the terminal is taken over
after such a callback, the ten rows below the title show just that log, whatever the terminal showed
at first. They still do after cycles that begin and switches that happen before anything else. All
that is asked of the screens that it is told is that they have the form of those of machines. -/
theorem performAll_shows_log (ht : t.syscalls = []) (g : Grid)
    (hseen : ∀ s, .handle (.screenUpdate s) ∈ steps → s.screen.WellFormed) :
    let d := (Display.mk t g).performAll steps
    let log := (steps.filterMap Step.logged?).reverse.take 10
    d.terminal.syscalls.map Syscall.name = log ∧
      ∀ before c quiet, steps = before ++ .handle c :: quiet → c.logged?.isSome →
        (∀ step ∈ quiet, step.Quiet) →
        ((Display.mk t g).performAll (before ++ [.handle c])).terminal.active = true →
        ∀ row < 10, ∀ x < 8,
          d.grid.cell (8 + x) (1 + row) = (log.getD row "").toList.getD x ' ' := by
  intro d log
  have hfresh : (Display.mk t g).terminal.names = ([] : List String).take 10 := by
    rw [names, ht]
    rfl
  have hlog : d.terminal.names = log := by
    rw [names_performAll hfresh steps, List.append_nil]
  refine ⟨hlog, ?_⟩
  rintro before c quiet rfl hc hquiet hactive
  have hafter : (Display.mk t g).performAll (before ++ [.handle c]) =
      ((Display.mk t g).performAll before).handle c := List.foldl_concat ..
  have hd : d = (((Display.mk t g).performAll before).handle c).performAll quiet :=
    List.foldl_append
  rw [hafter, active_handle] at hactive
  have hshown : (((Display.mk t g).performAll before).handle c).ShowsLog := by
    refine showsLog_handle hactive hc fun s hs => hseen s ?_
    rw [hs]
    exact List.mem_append_cons_self
  have hstill : d.ShowsLog := hd ▸ hshown.performAll hquiet
  rw [ShowsLog, hlog] at hstill
  exact hstill

/-- Of eleven calls the first is gone, which was logged while the terminal was not taken over. The
last one has a shorter name than the call that stood in its row. -/
theorem performAll_shows_log_evicted :
    let seen : State := .initial .smallest
    let steps : List Step := [.handle .clearScreen, .switch true, .handle (.screenUpdate seen)] ++
      List.replicate 7 (.handle .beep) ++
      [.handle .beep, .handle .clearScreen, .beginCycle [] seen 0]
    let d := (Display.mk {} ⟨fun _ _ => '?', 0, 0⟩).performAll steps
    d.terminal.syscalls.map Syscall.name = ["CLS"] ++ List.replicate 8 "BEEP" ++ ["DRW"] ∧
      (List.range 8).map (fun x => d.grid.cell (8 + x) (1 + 0)) =
        ['C', 'L', 'S', ' ', ' ', ' ', ' ', ' '] ∧
      (List.range 8).map (fun x => d.grid.cell (8 + x) (1 + 9)) =
        ['D', 'R', 'W', ' ', ' ', ' ', ' ', ' '] := by
  intro seen steps d
  have hwf : seen.WellFormed := .initial Settings.valid_smallest
  have hseen : ∀ s, .handle (.screenUpdate s) ∈ steps → s.screen.WellFormed := by
    intro s hs
    obtain rfl : s = seen := by simpa [steps] using hs
    exact hwf.wellFormed_screen
  have hempty : syscalls {} = [] := rfl
  obtain ⟨hlog, hrows⟩ := performAll_shows_log hempty ⟨fun _ _ => '?', 0, 0⟩ hseen
  have hnames : (steps.filterMap Step.logged?).reverse.take 10 =
      ["CLS"] ++ List.replicate 8 "BEEP" ++ ["DRW"] := rfl
  rw [hnames] at hlog hrows
  have hshown := hrows (steps.take 11) .clearScreen [.beginCycle [] seen 0] rfl rfl
    (fun step hstep => by rw [List.mem_singleton.1 hstep]; trivial) rfl
  exact ⟨hlog, List.map_congr_left fun x hx => hshown 0 (by decide) x (List.mem_range.1 hx),
    List.map_congr_left fun x hx => hshown 9 (by decide) x (List.mem_range.1 hx)⟩

end Display

end Terminal

end Chip8
