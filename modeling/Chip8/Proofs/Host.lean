import Chip8.Proofs.WellFormed

/-!
# Calls of a host

What the owner of a machine asks of it, in any order and whatever came of the calls before
(`Machine.answer`, `Machine.serve`). The keys that are down during a cycle are its input, so
that a run of calls covers every platform that changes the keyboard alone. What every cycle keeps
is kept along a run, and what every call keeps along calls in a row (`related_run`,
`related_serve`).

`sameShape_serve` : no calls change the shape of the state, so that a machine that is built from
valid settings is well-formed after any of them.
-/

namespace Chip8

/-- A call of the host. -/
inductive Call where
  /-- Load a program. -/
  | load (program : List UInt8)
  /-- Carry out a cycle. -/
  | cycle (input : Machine.Input)
  /-- Carry out cycles up to the first fault. -/
  | run (inputs : List Machine.Input)
  /-- Count the timers down to an instant. -/
  | tick (now : Nat)
  /-- Press a key. -/
  | press (key : UInt8)
  /-- Release a key. -/
  | release (key : UInt8)
  /-- Turn all pixels off. -/
  | clearScreen
  /-- Draw the sprite at the index register. -/
  | draw (x y rows : UInt8)
  /-- Start the random numbers over. -/
  | reseed (seed : UInt64)

/-- The result of what has been carried out : nothing but its fault, if it has one. -/
def Run.result (r : Run) : Except Fault Unit :=
  match r.fault with
  | some fault => .error fault
  | none => .ok ()

namespace Machine

/-- Answers a call. A load or a sprite that fails leaves the machine as it is; a cycle that
fails, also as the last one of a run, leaves it where `Machine.cycle` does. -/
def answer (m : Machine) : Call → Run
  | .load program =>
    match m.load program with
    | .error fault => { machine := m, fault := some fault }
    | .ok loaded => { machine := loaded, log := loadLog program }
  | .cycle input => m.cycle input.keyboard input.now
  | .run inputs => m.run inputs
  | .tick now => { machine := (m.tick now).1, callbacks := List.replicate (m.tick now).2 .beep }
  | .press key => { machine := { m with state := m.state.pressKey key } }
  | .release key => { machine := { m with state := m.state.releaseKey key } }
  | .clearScreen => { machine := { m with state := m.state.clearScreen } }
  | .draw x y rows =>
    match m.state.drawSprite x y rows with
    | .error fault => { machine := m, fault := some fault }
    | .ok (drawn, _) => { machine := { m with state := drawn } }
  | .reseed seed => { machine := m.reseed seed }

/-- The machine after calls that were answered in order, failed ones among them. -/
def serve (m : Machine) (calls : List Call) : Machine :=
  calls.foldl (fun m call => (m.answer call).machine) m

/-- What each of the calls comes to that are answered in order, failed ones among them. -/
def answers (m : Machine) : List Call → List Run
  | [] => []
  | call :: calls => m.answer call :: (m.answer call).machine.answers calls

/-- What the platform is told along calls that are answered in order. -/
def told (m : Machine) (calls : List Call) : List Callback :=
  (m.answers calls).flatMap Run.callbacks

@[simp] theorem serve_nil (m : Machine) : m.serve [] = m := rfl

@[simp] theorem serve_cons (m : Machine) (call : Call) (calls : List Call) :
    m.serve (call :: calls) = (m.answer call).machine.serve calls := rfl

@[simp] theorem told_nil (m : Machine) : m.told [] = [] := rfl

@[simp] theorem told_cons (m : Machine) (call : Call) (calls : List Call) :
    m.told (call :: calls) = (m.answer call).callbacks ++ (m.answer call).machine.told calls := by
  simp [told, answers]

/-! ## Along runs and calls -/

section Related

variable {R : Machine → Machine → Prop} (hrefl : ∀ m, R m m)
  (htrans : ∀ {m m' m'' : Machine}, R m m' → R m' m'' → R m m'')

include hrefl htrans

/-- What every cycle keeps, also one that fails, every run keeps. -/
theorem related_run (hcycle : ∀ m keyboard now, R m (cycle m keyboard now).machine) (m : Machine)
    (inputs : List Input) : R m (m.run inputs).machine := by
  induction inputs generalizing m with
  | nil => exact hrefl m
  | cons i is ih =>
    have hfirst := hcycle m i.keyboard i.now
    rw [run]
    dsimp only
    split
    · exact hfirst
    · exact htrans hfirst (ih _)

/-- What every call keeps, also one that fails, calls in a row keep. -/
theorem related_serve (hanswer : ∀ m call, R m (answer m call).machine) (m : Machine)
    (calls : List Call) : R m (m.serve calls) := by
  induction calls generalizing m with
  | nil => exact hrefl m
  | cons call calls ih => exact htrans (hanswer m call) (ih _)

end Related

/-! ## The shape along calls -/

theorem sameShape_run (m : Machine) (inputs : List Input) :
    m.state.SameShape (m.run inputs).machine.state :=
  related_run (R := fun m m' => m.state.SameShape m'.state) (fun m => .refl m.state)
    State.SameShape.trans sameShape_cycle m inputs

/-- No call changes the shape of the state, also none that fails. -/
theorem sameShape_answer (m : Machine) (call : Call) :
    m.state.SameShape (m.answer call).machine.state := by
  cases call <;> simp only [answer]
  case load program =>
    split
    · exact .refl _
    · exact sameShape_load ‹_›
  case cycle input => exact sameShape_cycle m _ _
  case run inputs => exact sameShape_run m _
  case tick now => exact sameShape_tick m now
  case clearScreen => exact .withScreen rfl rfl (Screen.size_clear _)
  case draw x y rows =>
    split
    · exact .refl _
    · exact .drawSprite ‹_›
  all_goals exact .of_eq rfl rfl rfl rfl

theorem sameShape_serve (m : Machine) (calls : List Call) :
    m.state.SameShape (m.serve calls).state :=
  related_serve (R := fun m m' => m.state.SameShape m'.state) (fun m => .refl m.state)
    State.SameShape.trans sameShape_answer m calls

end Machine

end Chip8
