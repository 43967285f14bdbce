import Chip8.Proofs.CallStack
import Chip8.Proofs.Simulation

/-!
# Calls and returns

The call stack of a machine is a list of addresses. A call that succeeds appends the address
behind it, a return takes the last address off and goes there, and nothing else that a machine
does changes the list (`callStack_serve`). So the return that belongs to a call, with a balanced
sequence of calls and returns between them, goes to the address behind the call and leaves the
list as it was before (`cycle_of_matched`).

What earlier calls left in slots that are not in use is never looked at : it makes no
difference to any answer (`answers_withSlots`).

`serve_nests` says all this of every machine that is built from valid settings, after any calls
of its host.
-/

namespace Chip8

/-! ## Calls and returns as a sequence -/

/-- A call or a return that succeeded. -/
inductive Nesting where
  /-- A call that returns to an address. -/
  | enter (back : UInt16)
  /-- A return. -/
  | leave
  deriving DecidableEq

namespace Nesting

/-- What a call or a return does to a list of addresses. -/
def apply : List UInt16 → Nesting → List UInt16
  | addresses, .enter back => addresses ++ [back]
  | addresses, .leave => addresses.dropLast

/-- What calls and returns do to a list of addresses, in order. -/
def replay (addresses : List UInt16) (nestings : List Nesting) : List UInt16 :=
  nestings.foldl apply addresses

@[simp] theorem replay_nil (addresses : List UInt16) : replay addresses [] = addresses := rfl

@[simp] theorem replay_enter (addresses : List UInt16) (back : UInt16) :
    replay addresses [.enter back] = addresses ++ [back] := rfl

@[simp] theorem replay_leave (addresses : List UInt16) :
    replay addresses [.leave] = addresses.dropLast := rfl

theorem replay_append (addresses : List UInt16) (before after : List Nesting) :
    replay addresses (before ++ after) = replay (replay addresses before) after :=
  List.foldl_append

/-- Every call has its return, and every return its call. -/
inductive Balanced : List Nesting → Prop
  | nil : Balanced []
  | nest {back : UInt16} {inner rest : List Nesting} :
    Balanced inner → Balanced rest → Balanced (.enter back :: inner ++ .leave :: rest)

/-- A balanced sequence restores the list that it started from. -/
theorem Balanced.replay_eq {nestings : List Nesting} (h : Balanced nestings)
    (addresses : List UInt16) : replay addresses nestings = addresses := by
  induction h generalizing addresses with
  | nil => rfl
  | @nest back inner rest _ _ ihinner ihrest =>
    have hinner : replay addresses (.enter back :: inner) = addresses ++ [back] := ihinner _
    have hrest : replay (addresses ++ [back]) (.leave :: rest) =
        replay (addresses ++ [back]).dropLast rest := rfl
    rw [replay_append, hinner, hrest, List.dropLast_concat, ihrest]

end Nesting

/-- What the next cycle does to the call stack, if anything : a call needs room for one more
address, and a return an address to go to. -/
def State.nesting? (s : State) : Option Nesting :=
  match s.operation? with
  | some (.call _) =>
    if s.stack.toList.length = s.stack.capacity then none else some (.enter (s.pc + 2))
  | some .ret => if s.stack.toList = [] then none else some .leave
  | _ => none

theorem State.nesting?_eq_none {s : State} (hcall : ∀ target, s.operation? ≠ some (.call target))
    (hret : s.operation? ≠ some .ret) : s.nesting? = none := by
  unfold nesting?
  cases hop : s.operation? with
  | none => rfl
  | some op =>
    cases op
    case call target => exact absurd hop (hcall target)
    case ret => exact absurd hop hret
    all_goals rfl

namespace Machine

/-- The return addresses on the call stack, oldest first. -/
def callStack (m : Machine) : List UInt16 := m.state.stack.toList

/-- The calls and returns in a run of cycles up to the first fault. -/
def runNestings (m : Machine) : List Input → List Nesting
  | [] => []
  | i :: is =>
    let c := m.cycle i.keyboard i.now
    match c.fault with
    | some _ => m.state.nesting?.toList
    | none => m.state.nesting?.toList ++ c.machine.runNestings is

/-- The calls and returns in the answer to a call of the host. -/
def callNestings (m : Machine) : Call → List Nesting
  | .cycle _ => m.state.nesting?.toList
  | .run inputs => m.runNestings inputs
  | _ => []

/-- The calls and returns in the answers to calls of the host. -/
def nestings (m : Machine) : List Call → List Nesting
  | [] => []
  | call :: calls => m.callNestings call ++ (m.answer call).machine.nestings calls

/-! ## Cycles that call or return -/

variable {m : Machine} {op : Operation} {address target : UInt16} {keyboard : UInt16} {now : Nat}

/-- A call fails if the list fills the stack. Otherwise it appends the address behind it. -/
theorem cycle_of_call (hm : m.state.WellFormed)
    (hop : m.state.operation? = some (.call target)) (i : Input) :
    (m.callStack.length = m.state.stack.capacity ∧
        (m.cycle i.keyboard i.now).fault = some .stackOverflow ∧
        (m.cycle i.keyboard i.now).machine.callStack = m.callStack) ∨
      (m.callStack.length ≠ m.state.stack.capacity ∧ (m.cycle i.keyboard i.now).fault = none ∧
        (m.cycle i.keyboard i.now).machine.callStack = m.callStack ++ [m.state.pc + 2] ∧
        (m.cycle i.keyboard i.now).machine.state.pc = target) := by
  have hfull := CallStack.push?_eq_none_iff_length (a := m.state.pc + 2) hm.depth
  cases hpush : m.state.stack.push? (m.state.pc + 2) with
  | none =>
    have hexecute : (m.withKeyboard i.keyboard).fetched.execute m.state.pc (.call target) =
        .error .stackOverflow := by
      simp only [execute, fetched, withKeyboard, hpush]
    rw [cycle_of_operation_error hop hexecute]
    exact .inl ⟨hfull.1 hpush, rfl, rfl⟩
  | some stack =>
    have hexecute : (m.withKeyboard i.keyboard).fetched.execute m.state.pc (.call target) =
        .ok { machine := { m with
          state := { m.state with pc := target, stack := stack, keyboard := i.keyboard } } } := by
      simp only [execute, fetched, withKeyboard, hpush]
    rw [cycle_of_operation_ok hop hexecute]
    refine .inr ⟨fun hlength => ?_, rfl, CallStack.toList_push hpush, rfl⟩
    rw [hfull.2 hlength] at hpush
    cases hpush

/-- A return fails if the list is empty. Otherwise it takes the last address off and goes
there. -/
theorem cycle_of_ret (hm : m.state.WellFormed) (hop : m.state.operation? = some .ret)
    (i : Input) :
    (m.callStack = [] ∧ (m.cycle i.keyboard i.now).fault = some .stackOverflow ∧
        (m.cycle i.keyboard i.now).machine.callStack = m.callStack) ∨
      (m.callStack ≠ [] ∧ (m.cycle i.keyboard i.now).fault = none ∧
        m.callStack = (m.cycle i.keyboard i.now).machine.callStack ++
          [(m.cycle i.keyboard i.now).machine.state.pc]) := by
  have hempty := CallStack.pop?_eq_none_iff_toList hm.depth
  cases hpop : m.state.stack.pop? with
  | none =>
    have hexecute : (m.withKeyboard i.keyboard).fetched.execute m.state.pc .ret =
        .error .stackOverflow := by
      simp only [execute, fetched, withKeyboard, hpop]
    rw [cycle_of_operation_error hop hexecute]
    exact .inl ⟨hempty.1 hpop, rfl, rfl⟩
  | some top =>
    obtain ⟨back, stack⟩ := top
    have hexecute : (m.withKeyboard i.keyboard).fetched.execute m.state.pc .ret =
        .ok { machine := { m with
          state := { m.state with pc := back, stack := stack, keyboard := i.keyboard } } } := by
      simp only [execute, fetched, withKeyboard, hpop]
    rw [cycle_of_operation_ok hop hexecute]
    refine .inr ⟨fun hlist => ?_, rfl, CallStack.toList_pop hm.depth hpop⟩
    rw [hempty.2 hlist] at hpop
    cases hpop

/-! ## Everything else -/

theorem stack_execute {effect : Effect} (hcall : ∀ target, op ≠ .call target) (hret : op ≠ .ret)
    (h : m.execute address op = .ok effect) : effect.machine.state.stack = m.state.stack := by
  cases op <;> simp only [execute, State.skipIf_eq] at h
  case call target => exact absurd rfl (hcall target)
  case ret => exact absurd rfl hret
  case draw =>
    split at h
    · cases h
    · rename_i hdraw
      have hdrawn := congrArg State.stack (State.eq_of_drawSprite hdraw)
      cases h
      exact hdrawn
  case storeDecimal | storeRegisters | loadRegisters =>
    split at h
    · cases h
    · cases h
      rfl
  case raw => cases h
  all_goals
    cases h
    rfl

/-- A cycle that neither calls nor returns leaves the stack alone, whether it waits for a key,
fails, or executes another operation. -/
theorem stack_cycle (hcall : ∀ target, m.state.operation? ≠ some (.call target))
    (hret : m.state.operation? ≠ some .ret) :
    (m.cycle keyboard now).machine.state.stack = m.state.stack := by
  obtain ⟨huntouched, -⟩ | ⟨op, effect, hop, hexecute, hcycle⟩ := cycle_cases m keyboard now
  · exact huntouched.stack
  · rw [hcycle]
    refine stack_execute (m := (m.withKeyboard keyboard).fetched) (fun target hcall' => ?_)
      (fun hret' => ?_) hexecute
    · exact hcall target (hop.trans (congrArg some hcall'))
    · exact hret (hop.trans (congrArg some hret'))

/-! ## The list along calls of the host -/

/-- A cycle does to the list what `State.nesting?` tells, and nothing if it fails. -/
theorem callStack_cycle (hm : m.state.WellFormed) (i : Input) :
    (m.cycle i.keyboard i.now).machine.callStack =
        Nesting.replay m.callStack m.state.nesting?.toList ∧
      ((m.cycle i.keyboard i.now).fault ≠ none →
        (m.cycle i.keyboard i.now).machine.callStack = m.callStack) := by
  by_cases hcall : ∃ target, m.state.operation? = some (.call target)
  · obtain ⟨target, hop⟩ := hcall
    have hnesting : m.state.nesting? = if m.callStack.length = m.state.stack.capacity then none
        else some (.enter (m.state.pc + 2)) := by
      rw [State.nesting?, hop]
      rfl
    rcases cycle_of_call hm hop i with ⟨hfull, -, hsame⟩ | ⟨hroom, hok, happend, -⟩
    · rw [hnesting, if_pos hfull, Option.toList_none, Nesting.replay_nil]
      exact ⟨hsame, fun _ => hsame⟩
    · rw [hnesting, if_neg hroom, Option.toList_some, Nesting.replay_enter]
      exact ⟨happend, fun hfault => absurd hok hfault⟩
  by_cases hret : m.state.operation? = some .ret
  · have hnesting : m.state.nesting? = if m.callStack = [] then none else some .leave := by
      rw [State.nesting?, hret]
      rfl
    rcases cycle_of_ret hm hret i with ⟨hempty, -, hsame⟩ | ⟨hsome, hok, hlast⟩
    · rw [hnesting, if_pos hempty, Option.toList_none, Nesting.replay_nil]
      exact ⟨hsame, fun _ => hsame⟩
    · rw [hnesting, if_neg hsome, Option.toList_some, Nesting.replay_leave]
      refine ⟨?_, fun hfault => absurd hok hfault⟩
      rw [hlast, List.dropLast_concat]
  · have hcall' : ∀ target, m.state.operation? ≠ some (.call target) :=
      fun target hop => hcall ⟨target, hop⟩
    have hsame : (m.cycle i.keyboard i.now).machine.callStack = m.callStack :=
      congrArg CallStack.toList (stack_cycle hcall' hret)
    rw [State.nesting?_eq_none hcall' hret, Option.toList_none, Nesting.replay_nil]
    exact ⟨hsame, fun _ => hsame⟩

theorem callStack_run (hm : m.state.WellFormed) (inputs : List Input) :
    (m.run inputs).machine.callStack = Nesting.replay m.callStack (m.runNestings inputs) := by
  induction inputs generalizing m with
  | nil => rfl
  | cons i is ih =>
    have hcycle : (m.cycle i.keyboard i.now).machine.callStack =
        Nesting.replay m.callStack m.state.nesting?.toList := (callStack_cycle hm i).1
    cases hfault : (m.cycle i.keyboard i.now).fault with
    | some fault =>
      rw [run_of_fault hfault]
      simp only [runNestings, hfault]
      exact hcycle
    | none =>
      rw [run_of_ok hfault]
      simp only [runNestings, hfault]
      rw [Nesting.replay_append, ← hcycle]
      exact ih (hm.of_sameShape (sameShape_cycle m _ _))

/-- Calls of the host other than cycles leave the stack alone. -/
theorem stack_answer {call : Call} (hcycle : ∀ i, call ≠ .cycle i)
    (hrun : ∀ inputs, call ≠ .run inputs) :
    (m.answer call).machine.state.stack = m.state.stack := by
  cases call with
  | cycle i => exact absurd rfl (hcycle i)
  | run inputs => exact absurd rfl (hrun inputs)
  | load program =>
    unfold answer load
    by_cases hroom : m.state.freeMemory < program.length
    · simp only [if_pos hroom]
    · simp only [if_neg hroom]
  | draw x y rows =>
    cases hdraw : m.state.drawSprite x y rows with
    | error fault => simp only [answer, hdraw]
    | ok drawn =>
      have hdrawn := congrArg State.stack (State.eq_of_drawSprite hdraw)
      simp only [answer, hdraw]
      exact hdrawn
  | tick | press | release | clearScreen | reseed => rfl

theorem callStack_answer (hm : m.state.WellFormed) (call : Call) :
    (m.answer call).machine.callStack = Nesting.replay m.callStack (m.callNestings call) := by
  cases call with
  | cycle i => exact (callStack_cycle hm i).1
  | run inputs => exact callStack_run hm inputs
  | load | tick | press | release | clearScreen | draw | reseed =>
    exact congrArg CallStack.toList (stack_answer nofun nofun)

/-- After any calls of the host, the list is what the calls and returns along the way have made
of it. -/
theorem callStack_serve (hm : m.state.WellFormed) (calls : List Call) :
    (m.serve calls).callStack = Nesting.replay m.callStack (m.nestings calls) := by
  induction calls generalizing m with
  | nil => rfl
  | cons call calls ih =>
    rw [serve_cons, nestings, Nesting.replay_append, ← callStack_answer hm call]
    exact ih (hm.of_sameShape (sameShape_answer m call))

/-- The return that belongs to a call : what lies between them is balanced, and so leaves the
address of the call on top. The return goes there, and leaves the list as the call found it. -/
theorem cycle_of_matched (hm : m.state.WellFormed)
    (hop : m.state.operation? = some (.call target)) {i j : Input} {calls : List Call}
    (hok : (m.cycle i.keyboard i.now).fault = none)
    (hbalanced : Nesting.Balanced ((m.cycle i.keyboard i.now).machine.nestings calls))
    (hret : ((m.cycle i.keyboard i.now).machine.serve calls).state.operation? = some .ret) :
    let back := ((m.cycle i.keyboard i.now).machine.serve calls).cycle j.keyboard j.now
    back.fault = none ∧ back.machine.state.pc = m.state.pc + 2 ∧
      back.machine.callStack = m.callStack := by
  have hentered : (m.cycle i.keyboard i.now).machine.callStack =
      m.callStack ++ [m.state.pc + 2] := by
    rcases cycle_of_call hm hop i with ⟨-, hfault, -⟩ | ⟨-, -, happend, -⟩
    · exact nomatch hok.symm.trans hfault
    · exact happend
  have hinner := hm.of_sameShape (sameShape_cycle m i.keyboard i.now)
  have hserved : ((m.cycle i.keyboard i.now).machine.serve calls).callStack =
      m.callStack ++ [m.state.pc + 2] := by
    rw [callStack_serve hinner, hbalanced.replay_eq, hentered]
  have hlast := cycle_of_ret (hinner.of_sameShape (sameShape_serve _ calls)) hret j
  rw [hserved] at hlast
  rcases hlast with ⟨hempty, -⟩ | ⟨-, hback, happend⟩
  · exact nomatch (List.append_eq_nil_iff.1 hempty).2
  · obtain ⟨hrest, hpc⟩ := List.append_inj' happend rfl
    exact ⟨hback, (List.singleton_inj.1 hpc).symm, hrest.symm⟩

end Machine

/-! ## Slots that are not in use -/

/-- The stack with zeros in the slots that are not in use. -/
def CallStack.cleaned (s : CallStack) : CallStack :=
  ⟨(s.toList ++ List.replicate (s.capacity - s.depth) 0).toArray, s.depth⟩

/-- The state with zeros in the slots of the stack that are not in use. -/
def State.cleaned (s : State) : State := { s with stack := s.stack.cleaned }

/-- The state with other slots of the stack. -/
def State.withSlots (slots : Array UInt16) (s : State) : State :=
  { s with stack := ⟨slots, s.stack.depth⟩ }

/-- Everything is the same but for the slots of the stack that are not in use. -/
def Simulation.unusedSlots : Simulation where
  memory m m' := m = m'
  stack s t := s.Alike t ∧ t.capacity = s.capacity
  settings settings settings' := settings' = settings
  strict := True
  read_eq h a := by rw [h]
  size_le h := Nat.le_of_eq (congrArg Array.size h)
  size_eq _ h := by rw [h]
  write h _ _ _ := by rw [h]
  push h _ hpush := by
    obtain ⟨t, hpush', hlike⟩ := h.1.push (Nat.le_of_eq h.2.symm) hpush
    refine ⟨t, hpush', hlike, ?_⟩
    rw [CallStack.capacity_push hpush, CallStack.capacity_push hpush', h.2]
  push_full _ h _ hpush := by
    rw [CallStack.push?_eq_none_iff] at hpush ⊢
    rwa [h.1.depth, h.2]
  pop h _ hpop := by
    obtain ⟨t, hpop', hlike⟩ := h.1.pop hpop
    refine ⟨t, hpop', hlike, ?_⟩
    rw [CallStack.capacity_pop hpop, CallStack.capacity_pop hpop', h.2]
  pop_empty _ h hpop := by
    rw [CallStack.pop?_eq_none_iff] at hpop ⊢
    rwa [h.1.depth]

namespace Simulation

theorem cleaned_eq_of_states {s t : State} (h : unusedSlots.States s t) :
    t.cleaned = s.cleaned := by
  cases h with
  | @intro memory stack settings hmemory hstack hsettings =>
    obtain rfl : s.memory = memory := hmemory
    obtain rfl : settings = s.settings := hsettings
    obtain ⟨hlike, hcapacity⟩ := hstack
    simp only [State.cleaned, CallStack.cleaned, hlike.toList, hlike.depth, hcapacity]

end Simulation

namespace Machine

variable {m : Machine}

/-- What is in the slots that are not in use makes no difference to any answer, but for what is
left of it in such slots. -/
theorem answers_withSlots (hm : m.state.WellFormed) {slots : Array UInt16}
    (hsize : slots.size = m.state.stack.slots.size)
    (hused : slots.toList.take m.state.stack.depth = m.callStack) (calls : List Call) :
    ((m.mapState (.withSlots slots)).answers calls).map (Run.mapState .cleaned) =
      (m.answers calls).map (Run.mapState .cleaned) := by
  have hlike : m.state.stack.Alike ⟨slots, m.state.stack.depth⟩ :=
    ⟨hm.depth, hm.depth.trans_eq hsize.symm, hused⟩
  have hmachines : Simulation.unusedSlots.Machines m (m.mapState (.withSlots slots)) :=
    ⟨.intro rfl ⟨hlike, hsize⟩ rfl, rfl, rfl⟩
  have hmode : Simulation.unusedSlots.SameMode := by
    rintro settings _ rfl
    rfl
  exact Simulation.mapState_runs_eq (fun _ _ => Simulation.cleaned_eq_of_states)
    (Simulation.runs_answers hmode hmachines calls (.inr trivial))

/-! ## The call stack of a machine -/

/-- What a machine does with its call stack, as a list of addresses. -/
structure Nests (m : Machine) : Prop where
  /-- A call fails exactly where there are as many addresses as the settings allow. Otherwise it
  appends the address behind it. -/
  call {target : UInt16} (hop : m.state.operation? = some (.call target)) (i : Input) :
    let c := m.cycle i.keyboard i.now
    (c.fault = if m.callStack.length = m.state.settings.stackSize.toNat then some .stackOverflow
      else none) ∧
    (c.fault = none → c.machine.callStack = m.callStack ++ [m.state.pc + 2] ∧
      c.machine.state.pc = target)
  /-- A return fails exactly where there are none. Otherwise it takes the last one off, and goes
  there. -/
  ret (hop : m.state.operation? = some .ret) (i : Input) :
    let c := m.cycle i.keyboard i.now
    (c.fault = if m.callStack = [] then some .stackOverflow else none) ∧
    (c.fault = none → m.callStack = c.machine.callStack ++ [c.machine.state.pc])
  /-- Cycles that wait for a key, and those that execute any other operation, leave the list
  alone. -/
  other (hcall : ∀ target, m.state.operation? ≠ some (.call target))
    (hret : m.state.operation? ≠ some .ret) (i : Input) :
    (m.cycle i.keyboard i.now).machine.callStack = m.callStack
  /-- So do cycles that fail. -/
  failed (i : Input) (hfault : (m.cycle i.keyboard i.now).fault ≠ none) :
    (m.cycle i.keyboard i.now).machine.callStack = m.callStack
  /-- So do loads, keys that are pressed, and all else that is not a cycle. -/
  host {call : Call} (hcycle : ∀ i, call ≠ .cycle i) (hrun : ∀ inputs, call ≠ .run inputs) :
    (m.answer call).machine.callStack = m.callStack
  /-- The return that belongs to a call goes to the address behind it, and leaves the list as the
  call found it. -/
  matched {target : UInt16} (hop : m.state.operation? = some (.call target)) {i : Input}
    (hok : (m.cycle i.keyboard i.now).fault = none) {calls : List Call}
    (hbalanced : Nesting.Balanced ((m.cycle i.keyboard i.now).machine.nestings calls))
    (hret : ((m.cycle i.keyboard i.now).machine.serve calls).state.operation? = some .ret)
    (j : Input) :
    let back := ((m.cycle i.keyboard i.now).machine.serve calls).cycle j.keyboard j.now
    back.fault = none ∧ back.machine.state.pc = m.state.pc + 2 ∧
      back.machine.callStack = m.callStack
  /-- What is in the slots that are not in use makes no difference to any answer. -/
  unused {slots : Array UInt16} (hsize : slots.size = m.state.stack.slots.size)
    (hused : slots.toList.take m.state.stack.depth = m.callStack) (calls : List Call) :
    ((m.mapState (.withSlots slots)).answers calls).map (Run.mapState .cleaned) =
      (m.answers calls).map (Run.mapState .cleaned)

theorem nests_of_wellFormed (hm : m.state.WellFormed) : m.Nests where
  call hop i := by
    have hcapacity : m.state.stack.capacity = m.state.settings.stackSize.toNat := hm.slots
    rw [← hcapacity]
    rcases cycle_of_call hm hop i with ⟨hfull, hfault, -⟩ | ⟨hroom, hok, hafter⟩
    · rw [if_pos hfull]
      exact ⟨hfault, fun hok => nomatch hok.symm.trans hfault⟩
    · rw [if_neg hroom]
      exact ⟨hok, fun _ => hafter⟩
  ret hop i := by
    rcases cycle_of_ret hm hop i with ⟨hempty, hfault, -⟩ | ⟨hsome, hok, hlast⟩
    · rw [if_pos hempty]
      exact ⟨hfault, fun hok => nomatch hok.symm.trans hfault⟩
    · rw [if_neg hsome]
      exact ⟨hok, fun _ => hlast⟩
  other hcall hret i := congrArg CallStack.toList (stack_cycle hcall hret)
  failed i hfault := (callStack_cycle hm i).2 hfault
  host hcycle hrun := congrArg CallStack.toList (stack_answer hcycle hrun)
  matched hop _ hok _ hbalanced hret j := cycle_of_matched hm hop hok hbalanced hret
  unused hsize hused calls := answers_withSlots hm hsize hused calls

theorem nests_serve (hm : m.state.WellFormed) (calls : List Call) :
    (m.serve calls).state.stack.capacity = m.state.settings.stackSize.toNat ∧
      (m.serve calls).callStack.length ≤ m.state.settings.stackSize.toNat ∧
      (m.serve calls).callStack = Nesting.replay m.callStack (m.nestings calls) ∧
      (m.serve calls).Nests := by
  have hshape := sameShape_serve m calls
  have hserved := hm.of_sameShape hshape
  have hcapacity := hshape.slots.trans hm.slots
  have hlength := CallStack.length_toList hserved.depth
  exact ⟨hcapacity, (hlength.trans_le hserved.depth).trans_eq hcapacity, callStack_serve hm calls,
    nests_of_wellFormed hserved⟩

/-- The call stack of a machine that is built from valid settings starts out empty, keeps its
capacity, and is after any calls of the host what the calls and returns along the way have made
of it : a list that only they change, and that alone decides what they do. -/
theorem serve_nests {settings : Settings} (h : settings.Valid) (seed : UInt64) :
    ∃ built, Machine.new settings (.ofSeed seed) = .ok built ∧ built.callStack = [] ∧
      ∀ calls : List Call, let m := built.serve calls
        m.state.stack.capacity = settings.stackSize.toNat ∧
        m.callStack.length ≤ settings.stackSize.toNat ∧
        m.callStack = Nesting.replay [] (built.nestings calls) ∧ m.Nests := by
  have hempty : callStack ⟨.initial settings, .ofSeed seed, none⟩ = [] := CallStack.toList_empty _
  refine ⟨_, new_eq_ok h _, hempty, fun calls => ?_⟩
  have hserve := nests_serve (m := ⟨.initial settings, .ofSeed seed, none⟩)
    (State.WellFormed.initial h) calls
  rwa [hempty] at hserve

/-- A subroutine that calls another one, with room for just two addresses : the return of the
first comes after a call and a return, and goes behind its own call. -/
theorem serve_nests_twice : ∃ (settings : Settings) (built : Machine),
    settings.stackSize = 2 ∧ Machine.new settings (.ofSeed 0) = .ok built ∧
      let i : Input := ⟨0, 0⟩
      let m := built.serve [.load [0x22, 0x04, 0, 0, 0x22, 0x08, 0x00, 0xEE, 0x00, 0xEE]]
      (m.serve [.cycle i, .cycle i]).callStack = [0x202, 0x206] ∧
        let back := ((m.cycle i.keyboard i.now).machine.serve [.cycle i, .cycle i]).cycle
          i.keyboard i.now
        back.fault = none ∧ back.machine.state.pc = m.state.pc + 2 ∧
          back.machine.callStack = m.callStack := by
  have hvalid : Settings.Valid { Settings.smallest with memorySize := 0x20A, stackSize := 2 } := rfl
  obtain ⟨built, hbuilt, -, hserve⟩ := serve_nests hvalid 0
  obtain rfl := Except.ok.inj ((new_eq_ok hvalid _).symm.trans hbuilt)
  refine ⟨_, _, rfl, hbuilt, ?_⟩
  intro i m
  have hnests : m.Nests :=
    (hserve [.load [0x22, 0x04, 0, 0, 0x22, 0x08, 0x00, 0xEE, 0x00, 0xEE]]).2.2.2
  have hnestings : (m.cycle i.keyboard i.now).machine.nestings [.cycle i, .cycle i] =
      [.enter 0x206, .leave] := by decide +kernel
  have hbalanced : Nesting.Balanced
      ((m.cycle i.keyboard i.now).machine.nestings [.cycle i, .cycle i]) := by
    rw [hnestings]
    exact .nest .nil .nil
  have hop : m.state.operation? = some (.call 0x204) := by decide +kernel
  have hok : (m.cycle i.keyboard i.now).fault = none := by decide +kernel
  have hret : ((m.cycle i.keyboard i.now).machine.serve [.cycle i, .cycle i]).state.operation? =
      some .ret := by decide +kernel
  exact ⟨by decide +kernel, hnests.matched hop hok hbalanced hret i⟩

end Machine

end Chip8
