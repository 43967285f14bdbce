import Chip8.Proofs.Callbacks
import Chip8.Proofs.Footprint

/-!
# Random numbers along a run

A generator computes its words block by block and hands them out one by one. Which word comes next
is a matter of how many have been handed out alone : a generator that has handed out `j` words of
its seed keeps those up to the end of their block, and the number of the block behind it
(`Random.At`). So it hands out the words of the stream in their order, across the ends of blocks and
beyond the last number of a block (`Random.next_of_at`).

A cycle takes one word if it executes `CXNN`, which does not fail, and none otherwise
(`Machine.deals_outcome`). The platform may have changed the state in the poll of the cycle in any
way, and a host may do so between cycles, load programs and count the timers (`Deed`).
`Machine.rolls_of_seed` : whatever happens to a machine after it was seeded, the instructions `CXNN`
that it executes store the words of the stream, in their order.
-/

namespace Chip8

/-! ## Generators -/

namespace Random

/-- The generator has handed out the first `j` words of a seed. -/
structure At (seed : UInt64) (j : Nat) (g : Random) : Prop where
  key : g.key = Seed.key seed
  pending : g.pending = (List.range' j ((16 - j % 16) % 16)).map (word seed)
  block : g.block = UInt64.ofNat ((j + 15) / 16)

theorem at_ofSeed (seed : UInt64) : At seed 0 (ofSeed seed) := ⟨rfl, rfl, rfl⟩

/-- A block has the sixteen words of the stream that belong to its number. -/
theorem toList_block (seed : UInt64) (n : Nat) :
    (ChaCha.block (Seed.key seed) (UInt64.ofNat n)).toList =
      (List.range' (16 * n) 16).map (word seed) := by
  refine List.ext_getElem (by simp) fun k hk _ => ?_
  have hlt : k < 16 := by simpa using hk
  have hdiv : (16 * n + k) / 16 = n := by omega
  have hmod : (16 * n + k) % 16 = k := by omega
  simp [word, hdiv, hmod]

variable {seed : UInt64} {j : Nat} {g : Random}

/-- At the end of a block the next one is computed. -/
theorem next_of_end (h : At seed j g) (hj : j % 16 = 0) :
    g.next = (word seed j, { g with
      block := g.block + 1
      pending := (List.range' (j + 1) 15).map (word seed) }) := by
  have hpending : g.pending = [] := by
    rw [h.pending, hj]
    rfl
  have hnumber : (j + 15) / 16 = j / 16 := by omega
  have hstart : 16 * (j / 16) = j := by omega
  have hwords : (ChaCha.block g.key g.block).toList =
      word seed j :: (List.range' (j + 1) 15).map (word seed) := by
    rw [h.key, h.block, hnumber, toList_block, hstart, List.range'_succ, List.map_cons]
  simp only [next, hpending, hwords]

/-- Within a block the words that are still to come are handed out. -/
theorem next_of_within (h : At seed j g) (hj : j % 16 ≠ 0) :
    g.next = (word seed j, { g with
      pending := (List.range' (j + 1) (15 - j % 16)).map (word seed) }) := by
  have hcount : (16 - j % 16) % 16 = 15 - j % 16 + 1 := by omega
  have hpending : g.pending = word seed j ::
      (List.range' (j + 1) (15 - j % 16)).map (word seed) := by
    rw [h.pending, hcount, List.range'_succ, List.map_cons]
  simp only [next, hpending]

/-- The next word is the next one of the stream. -/
theorem next_of_at (h : At seed j g) : g.next.1 = word seed j ∧ At seed (j + 1) g.next.2 := by
  by_cases hj : j % 16 = 0
  · have hcount : (16 - (j + 1) % 16) % 16 = 15 := by omega
    have hnumber : (j + 1 + 15) / 16 = (j + 15) / 16 + 1 := by omega
    rw [next_of_end h hj]
    refine ⟨rfl, h.key, by rw [hcount], ?_⟩
    rw [hnumber, UInt64.ofNat_add, ← h.block]
    rfl
  · have hcount : (16 - (j + 1) % 16) % 16 = 15 - j % 16 := by omega
    have hnumber : (j + 1 + 15) / 16 = (j + 15) / 16 := by omega
    rw [next_of_within h hj]
    exact ⟨rfl, h.key, by rw [hcount], by rw [hnumber]; exact h.block⟩

end Random

/-! ## Words -/

namespace Operation

theorem group_of_decode_random {word : UInt16} {x : Nibble} {mask : UInt8}
    (h : decode word = .random x mask) :
    Fin.ofNat 16 (word.toNat / 0x1000) = 0xC ∧ xOf word = x ∧ byteOf word = mask := by
  unfold decode at h
  split at h
  case h_13 hgroup =>
    obtain ⟨hx, hbyte⟩ := Operation.random.inj h
    exact ⟨hgroup, hx, hbyte⟩
  case h_1 =>
    unfold decodeSystem at h
    split_ifs at h
  case h_9 =>
    unfold decodeArithmetic at h
    dsimp only at h
    split at h <;> cases h
  case h_15 =>
    unfold decodeKeypad at h
    dsimp only at h
    split_ifs at h
  case h_16 =>
    unfold decodeMiscellaneous at h
    dsimp only at h
    split_ifs at h
  all_goals cases h

/-- The words of `CXNN`, and no others, spell it. -/
theorem decode_eq_random_iff {word : UInt16} {x : Nibble} {mask : UInt8} :
    decode word = .random x mask ↔ word.toNat = 0xC000 + 0x100 * x.val + mask.toNat := by
  have hword := word.toNat_lt
  have hx := x.isLt
  have hmask := mask.toNat_lt
  have hbyte : (byteOf word).toNat = word.toNat % 256 := by simp [byteOf]
  constructor
  · intro h
    obtain ⟨hgroup, rfl, rfl⟩ := group_of_decode_random h
    have hfirst : word.toNat / 0x1000 % 16 = 12 := congrArg Fin.val hgroup
    have hsecond : (xOf word).val = word.toNat / 0x100 % 16 := rfl
    omega
  · intro h
    have hgroup : Fin.ofNat 16 (word.toNat / 0x1000) = 0xC := Fin.ext (by
      show word.toNat / 0x1000 % 16 = 12
      omega)
    have hxOf : xOf word = x := Fin.ext (by
      show word.toNat / 0x100 % 16 = _
      omega)
    have hbyteOf : byteOf word = mask := UInt8.toNat_inj.1 (by omega)
    simp only [decode, hgroup, hxOf, hbyteOf]

end Operation

/-! ## Cycles -/

/-- A cycle that executes `CXNN`. -/
structure Roll where
  /-- The cycle. -/
  turn : Turn
  /-- The register `VX`. -/
  register : Nibble
  /-- The mask `NN`. -/
  mask : UInt8

/-- The cycle as one that executes `CXNN`, if it does. -/
def Turn.roll? (t : Turn) : Option Roll :=
  match t.machine.state.operation? with
  | some (.random x mask) => some ⟨t, x, mask⟩
  | _ => none

/-- The cycles that execute `CXNN`, in order. -/
def Turn.rolls (ts : List Turn) : List Roll := ts.filterMap Turn.roll?

namespace Roll

/-- The cycle executes `CXNN`, does not fail, and leaves the low byte of a word, masked, in `VX`. -/
structure Stores (r : Roll) (word : UInt32) : Prop where
  operation : r.turn.machine.state.operation? = some (.random r.register r.mask)
  ok : r.turn.outcome.fault = none
  stored : r.turn.outcome.machine.state.register r.register = word.toUInt8 &&& r.mask

/-- The cycles store the words of a seed from word `j` on, in order. -/
def Follow (seed : UInt64) (j : Nat) (rs : List Roll) : Prop :=
  ∀ (k : Nat) (r : Roll), rs[k]? = some r → r.Stores (Random.word seed (j + k))

variable {seed : UInt64} {j : Nat} {rs rs' : List Roll}

theorem Follow.append (h : Follow seed j rs) (h' : Follow seed (j + rs.length) rs') :
    Follow seed j (rs ++ rs') := by
  intro k r hk
  rcases Nat.lt_or_ge k rs.length with hlt | hge
  · rw [List.getElem?_append_left hlt] at hk
    exact h k r hk
  · rw [List.getElem?_append_right hge] at hk
    have hstores := h' _ r hk
    rwa [Nat.add_assoc, Nat.add_sub_cancel' hge] at hstores

theorem follow_singleton {r : Roll} (h : r.Stores (Random.word seed j)) : Follow seed j [r] := by
  intro k r' hk
  cases k with
  | zero =>
    cases hk
    exact h
  | succ k => cases hk

end Roll

/-- A cycle without `CXNN` leaves the generator alone. -/
theorem Turn.random_of_roll?_eq_none {t : Turn} (h : t.roll? = none) :
    t.outcome.machine.random = t.machine.random := by
  have hadvance : t.outcome.machine.random = t.machine.advance.machine.random := by
    cases hfault : t.outcome.fault with
    | some fault => rw [outcome_of_fault hfault]
    | none =>
      rw [outcome_of_ok hfault]
      rfl
  rw [hadvance]
  cases hop : t.machine.state.operation? with
  | none =>
    obtain ⟨wait, -, hwait⟩ | ⟨fault, hfault⟩ := Machine.advance_of_operation?_eq_none hop
    · rw [hwait]
      unfold Machine.await
      split <;> rfl
    · rw [hfault]
  | some op =>
    cases hexecute : t.machine.fetched.execute t.machine.state.pc op with
    | error fault =>
      rw [Machine.advance_of_operation_error hop hexecute]
      rfl
    | ok effect =>
      rw [Machine.advance_of_operation_ok hop hexecute]
      refine (Machine.within_execute hexecute).random ?_
      cases op <;> try rfl
      case random => simp [roll?, hop] at h

/-- A cycle with `CXNN` takes a word and stores it. -/
theorem Turn.stores_of_roll?_eq_some {t : Turn} {r : Roll} (h : t.roll? = some r) :
    r.Stores t.machine.random.next.1 ∧
      t.outcome.machine.random = t.machine.random.next.2 := by
  unfold roll? at h
  split at h
  · rename_i x mask hop
    cases h
    have hexecute : t.machine.fetched.execute t.machine.state.pc (.random x mask) = .ok
        { machine :=
            { t.machine.fetched with
              state := t.machine.fetched.state.setRegister x
                (t.machine.random.next.1.toUInt8 &&& mask)
              random := t.machine.random.next.2 } } := rfl
    have hadvance := Machine.advance_of_operation_ok hop hexecute
    have hok : t.outcome.fault = none := by rw [← fault_advance, hadvance]
    have houtcome := outcome_of_ok hok
    rw [hadvance] at houtcome
    have hstored : t.outcome.machine.state.register x =
        t.machine.random.next.1.toUInt8 &&& mask := by
      rw [houtcome]
      exact Vector.getElem_set_self _
    refine ⟨⟨hop, hok, hstored⟩, ?_⟩
    rw [houtcome]
    rfl
  · cases h

/-! ## Runs -/

/-- What can happen to a machine between two seedings. -/
inductive Deed where
  /-- Cycles are carried out, up to the first fault. -/
  | run (polls : List Poll)
  /-- A program is loaded. -/
  | load (program : List UInt8)
  /-- The timers are counted down to an instant. -/
  | tick (now : Nat)
  /-- The state is changed from outside. -/
  | change (f : State → State)

namespace Machine

/-- The machine behind a deed. A load that fails leaves it as it is. -/
def perform (m : Machine) : Deed → Machine
  | .run polls => (m.runPolled polls).machine
  | .load program =>
    match m.load program with
    | .ok loaded => loaded
    | .error _ => m
  | .tick now => (m.tick now).1
  | .change f => { m with state := f m.state }

/-- The cycles of a deed. -/
def turnsOf (m : Machine) : Deed → List Turn
  | .run polls => m.turns polls
  | _ => []

/-- The machine behind deeds in a row. -/
def performAll (m : Machine) (deeds : List Deed) : Machine := deeds.foldl perform m

/-- The cycles of deeds in a row. -/
def turnsAlong (m : Machine) : List Deed → List Turn
  | [] => []
  | d :: ds => m.turnsOf d ++ (m.perform d).turnsAlong ds

/-- The cycles of deeds in a row that execute `CXNN`. -/
def rolls (m : Machine) (deeds : List Deed) : List Roll := Turn.rolls (m.turnsAlong deeds)

/-- From one machine to another the cycles hand out words of a seed in order, one to each `CXNN`. -/
def Deals (seed : UInt64) (ts : List Turn) (m m' : Machine) : Prop :=
  ∀ j, Random.At seed j m.random →
    Random.At seed (j + (Turn.rolls ts).length) m'.random ∧ Roll.Follow seed j (Turn.rolls ts)

variable {seed : UInt64} {ts ts' : List Turn} {m m' m'' : Machine}

theorem Deals.of_random_eq (h : m'.random = m.random) : Deals seed [] m m' := by
  intro j hj
  exact ⟨by rw [h]; exact hj, nofun⟩

theorem Deals.append (h : Deals seed ts m m') (h' : Deals seed ts' m' m'') :
    Deals seed (ts ++ ts') m m'' := by
  intro j hj
  obtain ⟨hmid, hfollow⟩ := h j hj
  obtain ⟨hend, hfollow'⟩ := h' _ hmid
  have hrolls : Turn.rolls (ts ++ ts') = Turn.rolls ts ++ Turn.rolls ts' := List.filterMap_append
  rw [hrolls, List.length_append, ← Nat.add_assoc]
  exact ⟨hend, hfollow.append hfollow'⟩

/-- A cycle takes a word for its `CXNN`, and none without. -/
theorem deals_outcome (seed : UInt64) (t : Turn) :
    Deals seed [t] t.machine t.outcome.machine := by
  intro j hj
  cases hroll : t.roll? with
  | none =>
    have hrolls : Turn.rolls [t] = [] := List.filterMap_cons_none hroll
    rw [hrolls, Turn.random_of_roll?_eq_none hroll]
    exact ⟨hj, nofun⟩
  | some r =>
    have hrolls : Turn.rolls [t] = [r] := List.filterMap_cons_some hroll
    obtain ⟨hstores, hrandom⟩ := Turn.stores_of_roll?_eq_some hroll
    obtain ⟨hword, hnext⟩ := Random.next_of_at hj
    rw [hword] at hstores
    rw [hrolls, hrandom]
    exact ⟨hnext, Roll.follow_singleton hstores⟩

theorem deals_turn (seed : UInt64) (m : Machine) (p : Poll) :
    Deals seed [m.turn p] m (m.turn p).outcome.machine :=
  deals_outcome seed (m.turn p)

/-- A run, also one that fails, takes a word for each `CXNN` that it comes to. -/
theorem deals_runPolled (seed : UInt64) (m : Machine) (polls : List Poll) :
    Deals seed (m.turns polls) m (m.runPolled polls).machine := by
  induction polls generalizing m with
  | nil => exact .of_random_eq rfl
  | cons p ps ih =>
    have hturn := deals_turn seed m p
    cases hfault : (m.turn p).outcome.fault with
    | some fault =>
      rw [turns_of_fault hfault]
      simpa only [runPolled, hfault] using hturn
    | none =>
      rw [turns_of_ok hfault]
      have hruns := hturn.append (ih (m.turn p).outcome.machine)
      simpa only [runPolled, hfault, List.singleton_append] using hruns

theorem deals_perform (seed : UInt64) (m : Machine) (d : Deed) :
    Deals seed (m.turnsOf d) m (m.perform d) := by
  cases d with
  | run polls => exact deals_runPolled seed m polls
  | load program =>
    refine .of_random_eq ?_
    simp only [perform, load]
    split_ifs <;> rfl
  | tick now => exact .of_random_eq rfl
  | change f => exact .of_random_eq rfl

theorem deals_performAll (seed : UInt64) (m : Machine) (deeds : List Deed) :
    Deals seed (m.turnsAlong deeds) m (m.performAll deeds) := by
  induction deeds generalizing m with
  | nil => exact .of_random_eq rfl
  | cons d ds ih => exact (deals_perform seed m d).append (ih _)

theorem random_of_new {settings : Settings} {random : Random}
    (h : Machine.new settings random = .ok m) : m.random = random := by
  unfold Machine.new at h
  cases hstate : State.new settings with
  | error fault =>
    rw [hstate] at h
    cases h
  | ok state =>
    rw [hstate] at h
    cases h
    rfl

theorem machine_run_singleton (m : Machine) (i : Input) :
    (m.run [i]).machine = (m.cycle i.keyboard i.now).machine := by
  rw [run]
  dsimp only
  split <;> rfl

/-- What a host asks of a machine, but for a new seed, is a deed. -/
theorem exists_deed {call : Call} (h : ∀ seed, call ≠ .reseed seed) :
    ∃ d, ∀ m : Machine, (m.answer call).machine = m.perform d := by
  cases call with
  | load program =>
    refine ⟨.load program, fun m => ?_⟩
    simp only [answer, perform]
    cases m.load program <;> rfl
  | cycle input =>
    refine ⟨.run [input.poll], fun m => ?_⟩
    exact (machine_run_singleton m input).symm.trans
      (congrArg Run.machine (runPolled_poll m [input])).symm
  | run inputs =>
    exact ⟨.run (inputs.map Input.poll), fun m =>
      (congrArg Run.machine (runPolled_poll m inputs)).symm⟩
  | tick now => exact ⟨.tick now, fun _ => rfl⟩
  | press key => exact ⟨.change (·.pressKey key), fun _ => rfl⟩
  | release key => exact ⟨.change (·.releaseKey key), fun _ => rfl⟩
  | clearScreen => exact ⟨.change State.clearScreen, fun _ => rfl⟩
  | draw x y rows =>
    refine ⟨.change fun s => ((s.drawSprite x y rows).map Prod.fst).toOption.getD s, fun m => ?_⟩
    simp only [answer, perform]
    cases m.state.drawSprite x y rows <;> rfl
  | reseed seed => exact absurd rfl (h seed)

/-- A machine is seeded when it is built, or later. Whatever happens to it afterwards, cycles on any
platform, failed ones and ones that wait for a key among them, counts of the timers, loads of
programs and changes of the state from outside, the instructions `CXNN` that it executes do not
fail, and instruction `j` of them, counted from zero, leaves the low byte of word `j` of the seed in
`VX`, masked with `NN`, which may be zero. No other word has been taken : the next one is that
behind the words of the instructions. Whatever a host asks, but for a new seed, is among this, and
`CXNN` is what the words with these digits spell, and no others. -/
theorem rolls_of_seed (seed : UInt64) (m : Machine)
    (h : (∃ settings, Machine.new settings (.ofSeed seed) = .ok m) ∨
      ∃ before : Machine, m = before.reseed seed) (deeds : List Deed) :
    (∀ (j : Nat) (r : Roll), (m.rolls deeds)[j]? = some r → r.Stores (Random.word seed j)) ∧
    (m.performAll deeds).random.next.1 = Random.word seed (m.rolls deeds).length ∧
    (∀ call : Call, (∀ seed', call ≠ .reseed seed') →
      ∃ d, ∀ m' : Machine, (m'.answer call).machine = m'.perform d) ∧
    ∀ (word : UInt16) (x : Nibble) (mask : UInt8), Operation.decode word = .random x mask ↔
      word.toNat = 0xC000 + 0x100 * x.val + mask.toNat := by
  have hseeded : m.random = .ofSeed seed := by
    rcases h with ⟨settings, hnew⟩ | ⟨before, rfl⟩
    · exact random_of_new hnew
    · rfl
  have hstart : Random.At seed 0 m.random := by
    rw [hseeded]
    exact Random.at_ofSeed seed
  obtain ⟨hend, hfollow⟩ := deals_performAll seed m deeds 0 hstart
  refine ⟨fun j r hr => ?_, ?_, fun _ => exists_deed, fun _ _ _ => Operation.decode_eq_random_iff⟩
  · have hstores := hfollow j r hr
    rwa [Nat.zero_add] at hstores
  · rw [Nat.zero_add] at hend
    exact (Random.next_of_at hend).1

/-- Two instructions with the masks `00` and `FF`, a word that is none, and a program that is loaded
behind that failure : its instruction is the third. -/
theorem rolls_of_seed_reload : ∃ (m : Machine) (deeds : List Deed) (r : Roll),
    (∃ settings, Machine.new settings (.ofSeed 7) = .ok m) ∧
    (m.rolls deeds)[2]? = some r ∧ r.register = 2 ∧ r.mask = 0x0F ∧
    r.turn.outcome.machine.state.register 2 = (Random.word 7 2).toUInt8 &&& 0x0F ∧
    (m.performAll deeds).random.next.1 = Random.word 7 3 := by
  let settings : Settings := { Settings.smallest with memorySize := 0x206 }
  let m : Machine := ⟨.initial settings, .ofSeed 7, none⟩
  let deeds : List Deed :=
    [.load [0xC0, 0x00, 0xC1, 0xFF, 0xFF, 0xFF], .run [⟨id, 0⟩, ⟨id, 5⟩, ⟨id, 9⟩, ⟨id, 12⟩],
      .load [0xC2, 0x0F], .tick 20, .run [⟨id, 30⟩]]
  have hvalid : Settings.Valid { Settings.smallest with memorySize := 0x206 } := rfl
  have hnew : Machine.new settings (.ofSeed 7) = .ok m := new_eq_ok hvalid _
  have hshape : (m.rolls deeds).map (fun r => (r.register, r.mask)) =
      [(0, 0x00), (1, 0xFF), (2, 0x0F)] := by
    decide +kernel
  have hthird : (m.rolls deeds)[2]?.map (fun r => (r.register, r.mask)) = some (2, 0x0F) := by
    rw [← List.getElem?_map, hshape]
    rfl
  obtain ⟨r, hr, hread⟩ := Option.map_eq_some_iff.1 hthird
  obtain ⟨hregister, hmask⟩ := Prod.mk.inj hread
  have hlength : (m.rolls deeds).length = 3 := by
    rw [← List.length_map, hshape]
    rfl
  obtain ⟨hstores, hnext, -⟩ := rolls_of_seed 7 m (.inl ⟨settings, hnew⟩) deeds
  have hstored := (hstores 2 r hr).stored
  rw [hregister, hmask] at hstored
  rw [hlength] at hnext
  exact ⟨m, deeds, r, ⟨settings, hnew⟩, hr, hregister, hmask, hstored, hnext⟩

end Machine

end Chip8
