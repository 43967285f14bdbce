import Chip8.Proofs.Numeral
import Chip8.Quantity
import Mathlib.Data.List.Forall2
import Mathlib.Data.List.TakeWhile
import Mathlib.Data.Nat.Digits.Defs

/-!
# Texts that denote a number

`SpellsNumber` is the grammar of the numbers of a command line : digits in decimal, or in hex behind
`0x` or `0X`, with an optional plus sign before them. A digit is one of a table, a letter of it in
either case (`Numeral.IsDigit`), and digits denote the value that they have as digits of the base
(`Numeral.Denotes`). Nothing in the grammar says how long a numeral is, or how large its value.

The reader goes from digit to digit and gives up where the value on the way reaches a limit. Values
only grow on the way, so that it gives up exactly on the numerals whose value is not below the
limit, however many zeros they begin with (`Numeral.readFrom?_eq_some_iff`).

`readNumber_eq_ok_iff` : a text is read as a word exactly if what is left of it without the blanks
at its ends spells that word.
-/

namespace Chip8

/-! ## Blanks at the ends -/

namespace Text

/-- `core` is `cs` without the blanks at its ends. -/
structure Stripped (cs core : List Char) : Prop where
  parts : ∃ front back, cs = front ++ (core ++ back) ∧
    (∀ c ∈ front, isBlank c = true) ∧ ∀ c ∈ back, isBlank c = true
  first : ∀ c ∈ core.head?, isBlank c = false
  last : ∀ c ∈ core.getLast?, isBlank c = false

variable {cs core : List Char}

theorem dropWhile_of_head? {p : Char → Bool} (h : ∀ c ∈ cs.head?, p c = false) :
    cs.dropWhile p = cs := by
  cases cs with
  | nil => rfl
  | cons c cs => exact List.dropWhile_cons_of_neg (by simp [h c rfl])

theorem head?_dropWhile {p : Char → Bool} : ∀ c ∈ (cs.dropWhile p).head?, p c = false := by
  intro c hc
  have hnot := List.head?_dropWhile_not p cs
  rw [hc] at hnot
  simpa using hnot

/-- What is stripped is all that there is to strip. -/
theorem Stripped.trim_eq (h : Stripped cs core) : trim cs = core := by
  obtain ⟨front, back, rfl, hfront, hback⟩ := h.parts
  have hstart : trimStart (front ++ (core ++ back)) = trimStart (core ++ back) :=
    List.dropWhile_append_of_pos hfront
  have hend : trimEnd (core ++ back) = core := by
    have hblank : ∀ c ∈ back.reverse, isBlank c = true :=
      fun c hc => hback c (List.mem_reverse.1 hc)
    have hlast : ∀ c ∈ core.reverse.head?, isBlank c = false := by
      rw [List.head?_reverse]
      exact h.last
    rw [trimEnd, List.reverse_append, List.dropWhile_append_of_pos hblank,
      dropWhile_of_head? hlast, List.reverse_reverse]
  rw [trim, hstart]
  cases core with
  | nil =>
    have hnone : trimStart ([] ++ back) = [] := List.dropWhile_eq_nil_iff.2 hback
    rw [hnone]
    rfl
  | cons c core =>
    have hfirst : trimStart (c :: core ++ back) = c :: core ++ back :=
      dropWhile_of_head? h.first
    rw [hfirst, hend]

theorem stripped_self (h : ∀ c ∈ cs, isBlank c = false) : Stripped cs cs where
  parts := ⟨[], [], (List.append_nil cs).symm, nofun, nofun⟩
  first c hc := h c (List.mem_of_mem_head? hc)
  last c hc := h c (List.mem_of_mem_getLast? hc)

theorem stripped_trim (cs : List Char) : Stripped cs (trim cs) where
  parts := by
    refine ⟨cs.takeWhile isBlank, ((trimStart cs).reverse.takeWhile isBlank).reverse, ?_,
      fun c hc => List.mem_takeWhile_imp hc, fun c hc => ?_⟩
    · rw [trim, trimEnd, ← List.reverse_append, List.takeWhile_append_dropWhile,
        List.reverse_reverse, trimStart, List.takeWhile_append_dropWhile]
    · exact List.mem_takeWhile_imp (List.mem_reverse.1 hc)
  first := by
    intro c hc
    have hprefix : trim cs <+: trimStart cs := by
      rw [← List.reverse_suffix, trim, trimEnd, List.reverse_reverse]
      exact List.dropWhile_suffix isBlank
    obtain ⟨back, hback⟩ := hprefix
    refine head?_dropWhile c (?_ : c ∈ (cs.dropWhile isBlank).head?)
    rw [← trimStart, ← hback, List.head?_append, Option.mem_def.1 hc]
    rfl
  last := by
    intro c hc
    rw [trim, trimEnd, List.getLast?_reverse] at hc
    exact head?_dropWhile c hc

end Text

/-! ## Digits -/

namespace Numeral

/-- `c` is the digit `d` of a base, a letter in either case. -/
def IsDigit (base : Nat) (c : Char) (d : Nat) : Prop :=
  d < base ∧ (hexDigits[d]? = some c ∨ hexDigits[d]?.map Char.toLower = some c)

/-- One or more digits of a base, the most significant first, have the value `n`. -/
def Denotes (base : Nat) (cs : List Char) (n : Nat) : Prop :=
  cs ≠ [] ∧ ∃ ds, List.Forall₂ (IsDigit base) cs ds ∧ Nat.ofDigits base ds.reverse = n

/-- Digits behind an optional plus sign have the value `n`. -/
def DenotesSigned (base : Nat) (cs : List Char) (n : Nat) : Prop :=
  ∃ ds, (cs = ds ∨ cs = '+' :: ds) ∧ Denotes base ds n

variable {base limit n d : Nat} {c : Char} {cs : List Char}

/-- A base only says how far the digits go. -/
theorem digitValue?_eq_some_iff_lt :
    digitValue? base c = some d ↔ digitValue? 16 c = some d ∧ d < base := by
  unfold digitValue?
  grind

theorem IsDigit.mem_table (h : IsDigit base c d) : c ∈ hexDigits ++ hexDigits.map Char.toLower :=
  List.mem_append.2 (h.2.imp List.mem_of_getElem? fun hlower =>
    List.mem_of_getElem? (List.getElem?_map.trans hlower))

theorem IsDigit.isBlank (h : IsDigit base c d) : Text.isBlank c = false := by
  have htable : (hexDigits ++ hexDigits.map Char.toLower).all (Text.isBlank · = false) = true := by
    decide
  exact of_decide_eq_true (List.all_eq_true.1 htable c h.mem_table)

theorem digitValue?_eq_some_iff : digitValue? base c = some d ↔ IsDigit base c d := by
  have hcode : ∀ n < 128, ∀ d < 16, digitValue? 16 (Char.ofNat n) = some d ↔
      hexDigits[d]? = some (Char.ofNat n) ∨
        hexDigits[d]?.map Char.toLower = some (Char.ofNat n) := by
    decide +kernel
  have htable : (hexDigits ++ hexDigits.map Char.toLower).all (·.toNat < 128) = true := by decide
  rcases Nat.lt_or_ge c.toNat 128 with hc | hc
  · rw [digitValue?_eq_some_iff_lt, IsDigit, and_comm]
    refine and_congr_right fun _ => ?_
    rcases Nat.lt_or_ge d 16 with hd | hd
    · have hiff := hcode c.toNat hc d hd
      rwa [Char.ofNat_toNat] at hiff
    · have hnone : hexDigits[d]? = none := List.getElem?_eq_none hd
      refine iff_of_false (by unfold digitValue?; grind) ?_
      rw [hnone]
      exact not_or.2 ⟨nofun, nofun⟩
  · refine iff_of_false (by unfold digitValue?; grind) fun h => ?_
    have hlt := of_decide_eq_true (List.all_eq_true.1 htable c h.mem_table)
    omega

/-- Digits are read as their value behind the value before them, as long as it stays below the
limit at the end : it only grows. -/
theorem readFrom?_eq_some_iff {acc : Nat} (hbase : 0 < base) (hacc : acc < limit) :
    readFrom? base limit acc cs = some n ↔
      ∃ ds, List.Forall₂ (IsDigit base) cs ds ∧
        acc * base ^ ds.length + Nat.ofDigits base ds.reverse = n ∧ n < limit := by
  induction cs generalizing acc with
  | nil =>
    simp only [readFrom?, List.forall₂_nil_left_iff, exists_eq_left, List.length_nil,
      List.reverse_nil, Nat.ofDigits_nil]
    grind
  | cons c cs ih =>
    have hdigits (d : Nat) (ds : List Nat) :
        acc * base ^ (d :: ds).length + Nat.ofDigits base (d :: ds).reverse =
          (acc * base + d) * base ^ ds.length + Nat.ofDigits base ds.reverse := by
      rw [List.reverse_cons, Nat.ofDigits_append, Nat.ofDigits_singleton, List.length_reverse,
        List.length_cons]
      ring
    simp only [List.forall₂_cons_left_iff]
    cases hvalue : digitValue? base c with
    | none =>
      simp only [readFrom?, hvalue]
      refine iff_of_false (Option.some_ne_none n).symm ?_
      rintro ⟨-, ⟨d, ds, hd, -, rfl⟩, -⟩
      rw [digitValue?_eq_some_iff.2 hd] at hvalue
      cases hvalue
    | some d =>
      have honly : ∀ {d'}, IsDigit base c d' → d' = d := fun hd' =>
        Option.some.inj ((digitValue?_eq_some_iff.2 hd').symm.trans hvalue)
      simp only [readFrom?, hvalue]
      split_ifs with hlimit
      · rw [ih hlimit]
        constructor
        · rintro ⟨ds, hds, rfl, hn⟩
          exact ⟨d :: ds, ⟨d, ds, digitValue?_eq_some_iff.1 hvalue, hds, rfl⟩, hdigits d ds, hn⟩
        · rintro ⟨-, ⟨d', ds, hd', hds, rfl⟩, hvalue', hn⟩
          obtain rfl := honly hd'
          exact ⟨ds, hds, (hdigits d' ds).symm.trans hvalue', hn⟩
      · refine iff_of_false not_false ?_
        rintro ⟨-, ⟨d', ds, hd', -, rfl⟩, rfl, hn⟩
        obtain rfl := honly hd'
        have hpow : 0 < base ^ ds.length := Nat.pow_pos hbase
        have hgrows := Nat.le_mul_of_pos_right (acc * base + d') hpow
        rw [hdigits] at hn
        omega

theorem read?_eq_some_iff (hbase : 0 < base) (hlimit : 0 < limit) :
    read? base limit cs = some n ↔ Denotes base cs n ∧ n < limit := by
  by_cases hnil : cs = []
  · subst hnil
    exact iff_of_false nofun fun h => h.1.1 rfl
  · rw [read?_of_ne_nil hnil, readFrom?_eq_some_iff hbase hlimit]
    simp only [Nat.zero_mul, Nat.zero_add, Denotes]
    grind

theorem Denotes.exists_isDigit (h : Denotes base cs n) : ∀ c ∈ cs, ∃ d, IsDigit base c d := by
  obtain ⟨-, ds, hds, -⟩ := h
  intro c hc
  obtain ⟨k, hk, rfl⟩ := List.getElem_of_mem hc
  exact ⟨_, hds.get hk (hds.length_eq ▸ hk)⟩

theorem not_isDigit_plus : ¬IsDigit base '+' d := by
  rw [← digitValue?_eq_some_iff, digitValue?_eq_some_iff_lt]
  exact fun h => nomatch h.1

theorem not_denotes_plus : ¬Denotes base ('+' :: cs) n := fun h =>
  have ⟨_, hd⟩ := h.exists_isDigit '+' List.mem_cons_self
  not_isDigit_plus hd

theorem readSigned?_eq_some_iff (hbase : 0 < base) (hlimit : 0 < limit) :
    readSigned? base limit cs = some n ↔ DenotesSigned base cs n ∧ n < limit := by
  unfold readSigned?
  split
  · rename_i ds
    rw [read?_eq_some_iff hbase hlimit]
    refine and_congr_left fun _ => ⟨fun h => ⟨ds, .inr rfl, h⟩, ?_⟩
    rintro ⟨ds', rfl | hds, h⟩
    · exact absurd h not_denotes_plus
    · obtain rfl := (List.cons.inj hds).2
      exact h
  · rename_i hplus
    rw [read?_eq_some_iff hbase hlimit]
    refine and_congr_left fun _ => ⟨fun h => ⟨cs, .inl rfl, h⟩, ?_⟩
    rintro ⟨ds, rfl | hds, h⟩
    · exact h
    · exact absurd hds (hplus ds)

/-- A numeral denotes one value only. -/
theorem DenotesSigned.unique (hbase : 0 < base) {n' : Nat} (h : DenotesSigned base cs n)
    (h' : DenotesSigned base cs n') : n = n' := by
  have hread := (readSigned?_eq_some_iff hbase (by omega)).2 ⟨h, show n < n + n' + 1 by omega⟩
  have hread' := (readSigned?_eq_some_iff hbase (by omega)).2 ⟨h', show n' < n + n' + 1 by omega⟩
  exact Option.some.inj (hread.symm.trans hread')

theorem Denotes.isBlank_of_mem (h : Denotes base cs n) :
    ∀ c ∈ cs, Text.isBlank c = false := fun c hc =>
  have ⟨_, hd⟩ := h.exists_isDigit c hc
  hd.isBlank

/-- The numeral of a number denotes it, however many zeros stand before it. -/
theorem denotes_padded (hb : 2 ≤ base) (hbase : base ≤ 16) (width : Nat) :
    Denotes base (padded base width n) n :=
  ((read?_eq_some_iff (by omega) (Nat.succ_pos n)).1
    (read?_padded hb hbase (Nat.lt_succ_self n))).1

end Numeral

/-! ## Numbers of a command line -/

/-- A text without blanks at its ends spells a number : hex digits behind `0x` or `0X`, or else
decimal digits, each behind an optional plus sign. -/
def SpellsNumber (t : List Char) (n : Nat) : Prop :=
  (∃ x ds, (x = 'x' ∨ x = 'X') ∧ t = '0' :: x :: ds ∧ Numeral.DenotesSigned 16 ds n) ∨
    (∀ x ds, x = 'x' ∨ x = 'X' → t ≠ '0' :: x :: ds) ∧ Numeral.DenotesSigned 10 t n

section

variable {t : List Char} {n : Nat}

theorem hexDigits?_eq_some_iff {ds : List Char} :
    hexDigits? t = some ds ↔ ∃ x, (x = 'x' ∨ x = 'X') ∧ t = '0' :: x :: ds := by
  unfold hexDigits?
  split <;> grind

theorem spellsNumber_of_hexDigits? {ds : List Char} (h : hexDigits? t = some ds) :
    SpellsNumber t n ↔ Numeral.DenotesSigned 16 ds n := by
  obtain ⟨x, hx, rfl⟩ := hexDigits?_eq_some_iff.1 h
  unfold SpellsNumber
  grind

theorem spellsNumber_of_hexDigits?_eq_none (h : hexDigits? t = none) :
    SpellsNumber t n ↔ Numeral.DenotesSigned 10 t n := by
  have hnot : ∀ x ds, x = 'x' ∨ x = 'X' → t ≠ '0' :: x :: ds := fun x ds hx ht => by
    rw [hexDigits?_eq_some_iff.2 ⟨x, hx, ht⟩] at h
    cases h
  unfold SpellsNumber
  grind

theorem spellsNumber_of_denotes (h : Numeral.Denotes 10 t n) : SpellsNumber t n := by
  refine .inr ⟨?_, t, .inl rfl, h⟩
  rintro x ds hx rfl
  obtain ⟨d, hd⟩ := h.exists_isDigit x (List.mem_cons_of_mem _ List.mem_cons_self)
  rw [← Numeral.digitValue?_eq_some_iff] at hd
  rcases hx with rfl | rfl <;> cases hd

theorem SpellsNumber.unique {n' : Nat} (h : SpellsNumber t n) (h' : SpellsNumber t n') :
    n = n' := by
  cases hhex : hexDigits? t with
  | some ds =>
    rw [spellsNumber_of_hexDigits? hhex] at h h'
    exact h.unique (by decide) h'
  | none =>
    rw [spellsNumber_of_hexDigits?_eq_none hhex] at h h'
    exact h.unique (by decide) h'

/-- Numerals are read as words up to the largest one. -/
theorem readWord_eq_ok_iff {ε : Type} {base : Nat} (hbase : 0 < base) {error : ε} {v : UInt64} :
    (match Numeral.readSigned? base UInt64.size t with
      | some n => Except.ok (UInt64.ofNat n)
      | none => .error error) = .ok v ↔ Numeral.DenotesSigned base t v.toNat := by
  have hsize : 0 < UInt64.size := by decide
  split
  · rename_i n hread
    obtain ⟨hn, hlt⟩ := (Numeral.readSigned?_eq_some_iff hbase hsize).1 hread
    have hword : (UInt64.ofNat n).toNat = n := UInt64.toNat_ofNat_of_lt' hlt
    constructor
    · rintro ⟨⟩
      rwa [hword]
    · intro hv
      rw [hn.unique hbase hv, UInt64.ofNat_toNat]
  · rename_i hread
    refine iff_of_false nofun fun hv => ?_
    rw [(Numeral.readSigned?_eq_some_iff hbase hsize).2 ⟨hv, v.toNat_lt⟩] at hread
    cases hread

theorem readNumber_eq_ok_iff_trim {text : List Char} {v : UInt64} :
    readNumber text = .ok v ↔ SpellsNumber (Text.trim text) v.toNat := by
  unfold readNumber
  dsimp only
  cases hhex : hexDigits? (Text.trim text) with
  | some ds =>
    rw [spellsNumber_of_hexDigits? hhex]
    exact readWord_eq_ok_iff (by decide)
  | none =>
    rw [spellsNumber_of_hexDigits?_eq_none hhex]
    exact readWord_eq_ok_iff (by decide)

theorem readNumber_of_stripped {text : List Char} (h : Text.Stripped text t) {v : UInt64}
    (hv : SpellsNumber t v.toNat) : readNumber text = .ok v := by
  rw [readNumber_eq_ok_iff_trim, h.trim_eq]
  exact hv

end

/-- A text is read as a word exactly if, without the blanks at its ends, it spells that word. Every
word is read from its numerals in decimal and in hex, with zeros before them or without, and no
numeral of a larger value is read. -/
theorem readNumber_eq_ok_iff (text : List Char) :
    ∃ t, Text.Stripped text t ∧
      (∀ v, readNumber text = .ok v ↔ SpellsNumber t v.toNat) ∧
      (∀ n, SpellsNumber t n → 2 ^ 64 ≤ n → ∀ v, readNumber text ≠ .ok v) ∧
      ∀ (v : UInt64) (width : Nat),
        readNumber (Numeral.padded 10 width v.toNat) = .ok v ∧
          readNumber ('0' :: 'x' :: Numeral.padded 16 width v.toNat) = .ok v := by
  refine ⟨Text.trim text, Text.stripped_trim text, fun v => readNumber_eq_ok_iff_trim,
    fun n hn hlarge v hread => ?_, fun v width => ⟨?_, ?_⟩⟩
  · have hv := v.toNat_lt
    rw [hn.unique (readNumber_eq_ok_iff_trim.1 hread)] at hlarge
    omega
  · have hdenotes := Numeral.denotes_padded (n := v.toNat) (show 2 ≤ 10 by decide) (by decide) width
    exact readNumber_of_stripped (Text.stripped_self hdenotes.isBlank_of_mem)
      (spellsNumber_of_denotes hdenotes)
  · have hdenotes := Numeral.denotes_padded (n := v.toNat) (show 2 ≤ 16 by decide) (by decide) width
    refine readNumber_of_stripped (Text.stripped_self ?_)
      (.inl ⟨'x', _, .inl rfl, rfl, _, .inl rfl, hdenotes⟩)
    simpa using ⟨rfl, rfl, hdenotes.isBlank_of_mem⟩

/-- The largest word with zeros before it and letters in both cases, and the first value that is too
large for a word. -/
theorem readNumber_eq_ok_iff_largest :
    readNumber " \t0X+00fFfFfFfFfFfFfFfF\u2003".toList = .ok 18446744073709551615 ∧
      ∀ v, readNumber "0018446744073709551616".toList ≠ .ok v := by
  obtain ⟨t, ht, hiff, -⟩ := readNumber_eq_ok_iff " \t0X+00fFfFfFfFfFfFfFfF\u2003".toList
  obtain ⟨u, hu, -, hlarge, -⟩ := readNumber_eq_ok_iff "0018446744073709551616".toList
  have ht' : "0X+00fFfFfFfFfFfFfFfF".toList = t := (show _ = Text.trim _ by decide).trans ht.trim_eq
  have hu' : "0018446744073709551616".toList = u :=
    (show _ = Text.trim _ by decide).trans hu.trim_eq
  have hread : Numeral.read? 16 (2 ^ 64) "00fFfFfFfFfFfFfFfF".toList =
      some 18446744073709551615 := by decide
  have hdenotes := ((Numeral.read?_eq_some_iff (by decide) (by decide)).1 hread).1
  have hread' : Numeral.read? 10 (2 ^ 65) "0018446744073709551616".toList =
      some 18446744073709551616 := by decide
  have hdenotes' := ((Numeral.read?_eq_some_iff (by decide) (by decide)).1 hread').1
  refine ⟨(hiff _).2 ?_, hlarge _ ?_ (Nat.le_refl _)⟩
  · rw [← ht']
    exact .inl ⟨'X', _, .inr rfl, rfl, _, .inr rfl, hdenotes⟩
  · rw [← hu']
    exact spellsNumber_of_denotes hdenotes'

end Chip8
