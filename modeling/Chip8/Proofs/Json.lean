import Chip8.Json.Value
import Chip8.Proofs.Numeral
import Mathlib.Data.List.Chain

/-!
# Texts of JSON values

The texts of a value, as the grammar of JSON has them. A value is a sequence of tokens
(`Json.tokens`), a token can be written in one or more ways (`Json.Token.Spelled`), and blanks may
stand before, between and behind the tokens (`Json.Written`). Only two numbers could run into each
other, and no two numbers of a value are neighbours (`Json.isChain_tokens`) : so the tokens are
found again without any blanks between them (`Json.lex_of_spaced`), and the value is read from its
tokens however deep it is nested (`Json.readValue_tokens`).

`Json.parse_of_written` is the result : every text of a value is read as this value.
-/

namespace Chip8

namespace Json

/-! ## Texts in parts -/

/-- `cs` is made of a text for each of some items, one behind the other. -/
inductive Joined {α : Type} (Spelled : α → List Char → Prop) : List α → List Char → Prop
  | nil : Joined Spelled [] []
  | cons {a : α} {items : List α} {front rest : List Char} (hfront : Spelled a front)
      (hrest : Joined Spelled items rest) : Joined Spelled (a :: items) (front ++ rest)

theorem Joined.append {α : Type} {Spelled : α → List Char → Prop} {as bs : List α}
    {cs ds : List Char} (has : Joined Spelled as cs) (hbs : Joined Spelled bs ds) :
    Joined Spelled (as ++ bs) (cs ++ ds) := by
  induction has with
  | nil => exact hbs
  | cons hfront _ ih =>
    rw [List.cons_append, List.append_assoc]
    exact .cons hfront ih

/-! ## Strings -/

/-- How a piece of a string is written : a character as it is, or behind a backslash. -/
inductive Piece.Spelled : Piece → List Char → Prop
  | plain {c : Char} (hquote : c ≠ '"') (hslash : c ≠ '\\') (hcontrol : 0x20 ≤ c.toNat) :
      Spelled (.char c) [c]
  | escaped {e c : Char} (h : escaped? e = some c) : Spelled (.char c) ['\\', e]
  | unit {a b c d : Char} {value : Nat} (h : unit? a b c d = some value) :
      Spelled (.unit value) ['\\', 'u', a, b, c, d]

theorem scanString_append {ps : List Piece} {body : List Char} (h : Joined Piece.Spelled ps body)
    (done : List Piece) (rest : List Char) :
    scanString done (body ++ '"' :: rest) = some (done.reverse ++ ps, rest) := by
  induction h generalizing done with
  | nil => simp [scanString]
  | @cons p ps front body hfront _ ih =>
    have hscan : scanString done (front ++ (body ++ '"' :: rest)) =
        scanString (p :: done) (body ++ '"' :: rest) := by
      cases hfront with
      | plain hquote hslash hcontrol =>
        rw [List.singleton_append, scanString, if_neg (by simp [hslash]; omega)]
        · exact hquote
        · rintro _ _ _ _ _ rfl; exact absurd rfl hslash
        · rintro _ _ rfl; exact absurd rfl hslash
      | @escaped e c he =>
        have hu : e ≠ 'u' := by rintro rfl; cases he
        rw [List.cons_append, List.singleton_append, scanString, he]
        rintro _ _ _ _ _ rfl; exact absurd rfl hu
      | unit hvalue =>
        simp only [List.cons_append, List.nil_append, scanString, hvalue]
    rw [List.append_assoc, hscan, ih, List.reverse_cons, List.append_assoc, List.singleton_append]

/-! ## Numbers -/

/-- One or more digits. -/
def Digits (cs : List Char) : Prop := cs ≠ [] ∧ ∀ c ∈ cs, c.isDigit = true

instance (cs : List Char) : Decidable (Digits cs) :=
  haveI : Decidable (∀ c ∈ cs, c.isDigit = true) := List.decidableBAll _ cs
  inferInstanceAs (Decidable (_ ∧ _))

/-- Text behind a number, which does not go on with it. -/
def Ends (rest : List Char) : Prop :=
  ∀ c ∈ rest.head?, c.isDigit = false ∧ c ≠ '.' ∧ c ≠ 'e' ∧ c ≠ 'E'

/-- The whole part of a number : a zero, or digits of which the first is none. -/
def IsWhole (cs : List Char) : Prop := cs = ['0'] ∨ (Digits cs ∧ cs.head? ≠ some '0')

/-- A fraction, or nothing. -/
def IsFraction (cs : List Char) : Prop := cs = [] ∨ ∃ ds, Digits ds ∧ cs = '.' :: ds

/-- An exponent, or nothing. -/
def IsExponent (cs : List Char) : Prop :=
  cs = [] ∨ ∃ mark sign ds, (mark = 'e' ∨ mark = 'E') ∧ (sign = [] ∨ sign = ['+'] ∨ sign = ['-']) ∧
    Digits ds ∧ cs = mark :: (sign ++ ds)

/-- The parts of a number are what they should be. -/
structure Number.WellFormed (n : Number) : Prop where
  whole : IsWhole n.whole
  decimals : ∃ fraction exponent, IsFraction fraction ∧ IsExponent exponent ∧
    n.decimals = fraction ++ exponent

/-- A number as it is written. -/
def Number.text (n : Number) : List Char :=
  (if n.negative then ['-'] else []) ++ (n.whole ++ n.decimals)

theorem scanDigits_append {start ds rest : List Char} (hds : Digits ds)
    (hrest : ∀ c ∈ rest.head?, c.isDigit = false) :
    scanDigits start (ds ++ rest) = some (start ++ ds, rest) := by
  have htake : rest.takeWhile Char.isDigit = [] := by
    cases rest with
    | nil => rfl
    | cons c rest => exact List.takeWhile_cons_of_neg (by simp [hrest c rfl])
  have hdrop : rest.dropWhile Char.isDigit = rest := by
    cases rest with
    | nil => rfl
    | cons c rest => exact List.dropWhile_cons_of_neg (by simp [hrest c rfl])
  simp only [scanDigits]
  rw [List.takeWhile_append_of_pos hds.2, List.dropWhile_append_of_pos hds.2, htake, hdrop,
    List.append_nil, if_neg (by simpa using hds.1)]

theorem scanWhole_append {whole rest : List Char} (hwhole : IsWhole whole)
    (hrest : ∀ c ∈ rest.head?, c.isDigit = false) :
    scanWhole (whole ++ rest) = some (whole, rest) := by
  obtain rfl | ⟨hdigits, hhead⟩ := hwhole
  · rfl
  · obtain ⟨c, cs, rfl⟩ := List.exists_cons_of_ne_nil hdigits.1
    have hc : c ≠ '0' := fun h => hhead (congrArg some h)
    rw [List.cons_append, scanWhole, ← List.cons_append, scanDigits_append hdigits hrest,
      List.nil_append]
    exact fun _ h => hc (List.cons.inj h).1

theorem scanFraction_append {fraction rest : List Char} (hfraction : IsFraction fraction)
    (hrest : ∀ c ∈ rest.head?, c.isDigit = false ∧ c ≠ '.') :
    scanFraction (fraction ++ rest) = some (fraction, rest) := by
  obtain rfl | ⟨ds, hds, rfl⟩ := hfraction
  · rw [List.nil_append, scanFraction]
    rintro _ rfl
    exact (hrest '.' rfl).2 rfl
  · exact scanDigits_append hds fun c hc => (hrest c hc).1

theorem scanExponent_append {exponent rest : List Char} (hexponent : IsExponent exponent)
    (hrest : Ends rest) : scanExponent (exponent ++ rest) = some (exponent, rest) := by
  have hdigit : ∀ c ∈ rest.head?, c.isDigit = false := fun c hc => (hrest c hc).1
  obtain rfl | ⟨mark, sign, ds, hmark, hsign, hds, rfl⟩ := hexponent
  · cases rest with
    | nil => rfl
    | cons c rest =>
      obtain ⟨-, -, he, hE⟩ := hrest c rfl
      rw [List.nil_append, scanExponent.eq_def]
      exact if_neg (by simp [he, hE])
  · rw [List.cons_append, List.append_assoc, scanExponent.eq_def]
    refine (if_pos hmark).trans ?_
    obtain rfl | rfl | rfl := hsign
    · have hscan : scanDigits [mark] (ds ++ rest) = some (mark :: ds, rest) :=
        scanDigits_append hds hdigit
      obtain ⟨d, ds, rfl⟩ := List.exists_cons_of_ne_nil hds.1
      have hd : d.isDigit = true := hds.2 d (List.mem_cons_self ..)
      rw [List.nil_append, List.nil_append]
      split
      · rename_i hcons
        obtain rfl : d = '+' := (List.cons.inj hcons).1
        cases hd
      · rename_i hcons
        obtain rfl : d = '-' := (List.cons.inj hcons).1
        cases hd
      · exact hscan
    · exact scanDigits_append hds hdigit
    · exact scanDigits_append hds hdigit

/-- What stands behind a fraction does not go on with it. -/
theorem head?_exponent {exponent rest : List Char} (hexponent : IsExponent exponent)
    (hrest : Ends rest) : ∀ c ∈ (exponent ++ rest).head?, c.isDigit = false ∧ c ≠ '.' := by
  obtain rfl | ⟨mark, sign, ds, hmark, -, -, rfl⟩ := hexponent
  · exact fun c hc => ⟨(hrest c hc).1, (hrest c hc).2.1⟩
  · rintro c hc
    obtain rfl : mark = c := Option.some.inj hc
    obtain rfl | rfl := hmark <;> decide

theorem scanNumber_append {n : Number} (hn : n.WellFormed) {rest : List Char} (hrest : Ends rest) :
    scanNumber n.negative ((n.whole ++ n.decimals) ++ rest) = some (n, rest) := by
  obtain ⟨fraction, exponent, hfraction, hexponent, hdecimals⟩ := hn.decimals
  have hbehind := head?_exponent hexponent hrest
  have hwhole : ∀ c ∈ (fraction ++ (exponent ++ rest)).head?, c.isDigit = false := by
    obtain rfl | ⟨ds, -, rfl⟩ := hfraction
    · exact fun c hc => (hbehind c hc).1
    · rintro c hc
      obtain rfl : '.' = c := Option.some.inj hc
      decide
  rw [scanNumber, hdecimals, List.append_assoc, List.append_assoc,
    scanWhole_append hn.whole hwhole]
  simp only [Option.bind_eq_bind, Option.bind_some, scanFraction_append hfraction hbehind,
    scanExponent_append hexponent hrest]
  rw [← hdecimals]
  rfl

/-! ## Tokens -/

/-- How a token is written. -/
inductive Token.Spelled : Token → List Char → Prop
  | openBrace : Spelled .openBrace ['{']
  | closeBrace : Spelled .closeBrace ['}']
  | openBracket : Spelled .openBracket ['[']
  | closeBracket : Spelled .closeBracket [']']
  | comma : Spelled .comma [',']
  | colon : Spelled .colon [':']
  | null : Spelled .null ['n', 'u', 'l', 'l']
  | isTrue : Spelled (.bool true) ['t', 'r', 'u', 'e']
  | isFalse : Spelled (.bool false) ['f', 'a', 'l', 's', 'e']
  | number {n : Number} (hn : n.WellFormed) : Spelled (.number n) n.text
  | string {ps : List Piece} {body : List Char} (hbody : Joined Piece.Spelled ps body) :
      Spelled (.string ps) ('"' :: (body ++ ['"']))

/-- Whether a token is a number. -/
def Token.isNumber : Token → Bool
  | .number _ => true
  | _ => false

theorem IsWhole.exists_cons {whole : List Char} (h : IsWhole whole) :
    ∃ c cs, whole = c :: cs ∧ c.isDigit = true := by
  obtain rfl | ⟨hdigits, -⟩ := h
  · exact ⟨'0', [], rfl, rfl⟩
  · obtain ⟨c, cs, rfl⟩ := List.exists_cons_of_ne_nil hdigits.1
    exact ⟨c, cs, rfl, hdigits.2 c (List.mem_cons_self ..)⟩

theorem scanToken_of_isDigit {c : Char} (hc : c.isDigit = true) (cs : List Char) :
    scanToken c cs = (scanNumber false (c :: cs)).map fun (n, r) => (.number n, r) := by
  unfold scanToken
  split
  case h_12 => rfl
  all_goals cases hc

theorem isSpace_of_isDigit {c : Char} (hc : c.isDigit = true) : isSpace c = false := by
  refine Bool.eq_false_iff.2 fun hspace => ?_
  simp only [isSpace, Bool.or_eq_true, beq_iff_eq] at hspace
  obtain ((rfl | rfl) | rfl) | rfl := hspace <;> cases hc

/-- A token is read as far as it goes, if no number goes on behind it. -/
theorem Token.Spelled.scan {t : Token} {word rest : List Char} (h : t.Spelled word)
    (hrest : t.isNumber = true → Ends rest) :
    ∃ c cs, word = c :: cs ∧ isSpace c = false ∧ scanToken c (cs ++ rest) = some (t, rest) := by
  cases h with
  | openBrace | closeBrace | openBracket | closeBracket | comma | colon =>
    exact ⟨_, _, rfl, rfl, rfl⟩
  | null | isTrue | isFalse => exact ⟨_, _, rfl, rfl, by simp [scanToken, Text.strip?]⟩
  | string hbody =>
    refine ⟨_, _, rfl, rfl, ?_⟩
    rw [List.append_assoc, List.singleton_append, scanToken, scanString_append hbody]
    rfl
  | @number n hn =>
    have hscan := scanNumber_append hn (hrest rfl)
    unfold Number.text
    cases hnegative : n.negative with
    | true =>
      rw [hnegative] at hscan
      refine ⟨'-', n.whole ++ n.decimals, rfl, rfl, ?_⟩
      rw [scanToken, hscan]
      rfl
    | false =>
      obtain ⟨c, cs, hcs, hc⟩ := hn.whole.exists_cons
      rw [hnegative, hcs, List.cons_append, List.cons_append] at hscan
      refine ⟨c, cs ++ n.decimals, by rw [hcs]; rfl, isSpace_of_isDigit hc, ?_⟩
      rw [scanToken_of_isDigit hc, hscan]
      rfl

/-- No number goes on with the text of a token that is none. -/
theorem Token.Spelled.ends {t : Token} {word : List Char} (h : t.Spelled word)
    (ht : t.isNumber = false) (rest : List Char) : Ends (word ++ rest) := by
  intro c hc
  cases h with
  | number => cases ht
  | _ =>
    obtain rfl := Option.some.inj hc
    decide

/-! ## Texts of tokens -/

/-- Nothing but blanks that may stand between tokens. -/
def Blank (cs : List Char) : Prop := ∀ c ∈ cs, isSpace c = true

/-- A token with blanks before it. -/
def Token.Placed (t : Token) (cs : List Char) : Prop :=
  ∃ blank word, Blank blank ∧ t.Spelled word ∧ cs = blank ++ word

/-- A text that consists of tokens with any blanks before, between and behind them. -/
def Spaced (ts : List Token) (text : List Char) : Prop :=
  ∃ front last, Joined Token.Placed ts front ∧ Blank last ∧ text = front ++ last

/-- Tokens that may stand directly behind each other. -/
def Token.Apart (s t : Token) : Prop := s.isNumber = false ∨ t.isNumber = false

instance (cs : List Char) : Decidable (Blank cs) := List.decidableBAll _ cs

theorem blank_nil : Blank [] := nofun

theorem Blank.append {cs ds : List Char} (hcs : Blank cs) (hds : Blank ds) : Blank (cs ++ ds) :=
  List.forall_mem_append.2 ⟨hcs, hds⟩

theorem ends_of_blank {blank rest : List Char} (h : Blank blank) (hrest : Ends rest) :
    Ends (blank ++ rest) := by
  cases blank with
  | nil => exact hrest
  | cons b blank =>
    intro c hc
    obtain rfl : b = c := Option.some.inj hc
    have hspace : isSpace b = true := h b (List.mem_cons_self ..)
    simp only [isSpace, Bool.or_eq_true, beq_iff_eq] at hspace
    obtain ((rfl | rfl) | rfl) | rfl := hspace <;> decide

theorem ends_nil : Ends [] := nofun

theorem lexFrom_blank {blank : List Char} (h : Blank blank) (done : List Token)
    (rest : List Char) : lexFrom done (blank ++ rest) = lexFrom done rest := by
  induction blank with
  | nil => rfl
  | cons b blank ih =>
    obtain ⟨hb, hblank⟩ := List.forall_mem_cons.1 h
    rw [List.cons_append, lexFrom, if_pos hb, ih hblank]

theorem lexFrom_placed {t : Token} {placed rest : List Char} (h : t.Placed placed)
    (hrest : t.isNumber = true → Ends rest) (done : List Token) :
    lexFrom done (placed ++ rest) = lexFrom (t :: done) rest := by
  obtain ⟨blank, word, hblank, hword, rfl⟩ := h
  obtain ⟨c, cs, rfl, hc, hscan⟩ := hword.scan hrest
  rw [List.append_assoc, lexFrom_blank hblank, List.cons_append, lexFrom, if_neg (by simp [hc])]
  split
  · rename_i hnone
    rw [hscan] at hnone
    cases hnone
  · rename_i hsome
    rw [hscan] at hsome
    cases hsome
    rfl

/-- The tokens of a text are read as they are, if no number stands directly behind another : then
blanks, the end of the text or a token that is no number end it. -/
theorem lexFrom_joined {ts : List Token} {front last : List Char}
    (h : Joined Token.Placed ts front) (hapart : ts.IsChain Token.Apart) (hlast : Blank last)
    (done : List Token) : lexFrom done (front ++ last) = some (done.reverse ++ ts) := by
  induction h generalizing done with
  | nil =>
    rw [List.nil_append, ← List.append_nil last, lexFrom_blank hlast, lexFrom, List.append_nil]
  | @cons t ts front rest hfront hjoined ih =>
    have hends : t.isNumber = true → Ends (rest ++ last) := by
      intro ht
      cases hjoined with
      | nil =>
        have hlast := ends_of_blank hlast ends_nil
        rwa [List.append_nil] at hlast
      | cons hnext _ =>
        obtain ⟨blank, word, hblank, hword, rfl⟩ := hnext
        have hnumber := (List.isChain_cons_cons.1 hapart).1.resolve_left (by simp [ht])
        rw [List.append_assoc, List.append_assoc]
        exact ends_of_blank hblank (hword.ends hnumber _)
    rw [List.append_assoc, lexFrom_placed hfront hends, ih hapart.tail, List.reverse_cons,
      List.append_assoc, List.singleton_append]

theorem lex_of_spaced {ts : List Token} {text : List Char} (h : Spaced ts text)
    (hapart : ts.IsChain Token.Apart) : lex text = some ts := by
  obtain ⟨front, last, hjoined, hlast, rfl⟩ := h
  exact lexFrom_joined hjoined hapart hlast []

/-! ## Values -/

mutual

/-- The tokens of a value. -/
def tokens : Json → List Token
  | .null => [.null]
  | .bool b => [.bool b]
  | .number n => [.number n]
  | .string s => [.string s]
  | .array items => .openBracket :: ((itemTokens items).tail ++ [.closeBracket])
  | .object members => .openBrace :: ((memberTokens members).tail ++ [.closeBrace])

/-- The tokens of the items of an array, a comma before each of them. -/
def itemTokens : List Json → List Token
  | [] => []
  | v :: vs => .comma :: (tokens v ++ itemTokens vs)

/-- The tokens of the members of an object, a comma before each of them. -/
def memberTokens : List (List Piece × Json) → List Token
  | [] => []
  | (key, v) :: ms => .comma :: .string key :: .colon :: (tokens v ++ memberTokens ms)

end

/-- `text` is a JSON text of a value, with any blanks between its tokens. -/
def Written (v : Json) (text : List Char) : Prop := Spaced (tokens v) text

theorem Written.append {v : Json} {text blank : List Char} (h : Written v text)
    (hblank : Blank blank) : Written v (text ++ blank) := by
  obtain ⟨front, last, hjoined, hlast, rfl⟩ := h
  exact ⟨front, last ++ blank, hjoined, hlast.append hblank, List.append_assoc ..⟩

mutual

theorem readValue_tokens : ∀ (v : Json) (closable : Option (List Frame)) (frames : List Frame)
    (rest : List Token),
    readValue closable frames (tokens v ++ rest) = readAfter v frames rest
  | .null, _, _, _ | .bool _, _, _, _ | .number _, _, _, _ | .string _, _, _, _ => by
    simp only [tokens, List.singleton_append, readValue]
  | .array [], _, frames, rest => by
    simp only [tokens, itemTokens, List.tail_nil, List.nil_append, List.cons_append, readValue]
  | .array (v :: vs), _, frames, rest => by
    simp only [tokens, itemTokens, List.tail_cons, List.cons_append, List.append_assoc, readValue]
    rw [readValue_tokens v, List.nil_append, readAfter_itemTokens vs]
    rfl
  | .object [], _, frames, rest => by
    simp only [tokens, memberTokens, List.tail_nil, List.nil_append, List.cons_append, readValue,
      readKey, if_true]
  | .object ((key, v) :: ms), _, frames, rest => by
    simp only [tokens, memberTokens, List.tail_cons, List.cons_append, List.append_assoc, readValue,
      readKey]
    rw [readValue_tokens v, List.nil_append, readAfter_memberTokens ms]
    rfl

theorem readAfter_itemTokens : ∀ (vs : List Json) (w : Json) (done : List Json)
    (frames : List Frame) (rest : List Token),
    readAfter w (.array done :: frames) (itemTokens vs ++ .closeBracket :: rest) =
      readAfter (.array (done.reverse ++ w :: vs)) frames rest
  | [], w, done, frames, rest => by
    simp only [itemTokens, List.nil_append, readAfter, List.reverse_cons]
  | v :: vs, w, done, frames, rest => by
    simp only [itemTokens, List.cons_append, List.append_assoc, readAfter]
    rw [readValue_tokens v, readAfter_itemTokens vs, List.reverse_cons, List.append_assoc,
      List.singleton_append]

theorem readAfter_memberTokens : ∀ (ms : List (List Piece × Json)) (w : Json) (key : List Piece)
    (done : List (List Piece × Json)) (frames : List Frame) (rest : List Token),
    readAfter w (.object done key :: frames) (memberTokens ms ++ .closeBrace :: rest) =
      readAfter (.object (done.reverse ++ (key, w) :: ms)) frames rest
  | [], w, key, done, frames, rest => by
    simp only [memberTokens, List.nil_append, readAfter, List.reverse_cons]
  | (next, v) :: ms, w, key, done, frames, rest => by
    simp only [memberTokens, List.cons_append, List.append_assoc, readAfter, readKey]
    rw [readValue_tokens v, readAfter_memberTokens ms, List.reverse_cons, List.append_assoc,
      List.singleton_append]

end

/-! ### Numbers of a value stand apart -/

theorem isChain_append_of_head? {ts us : List Token} (hts : ts.IsChain Token.Apart)
    (hus : us.IsChain Token.Apart) (h : ∀ u ∈ us.head?, u.isNumber = false) :
    (ts ++ us).IsChain Token.Apart :=
  List.isChain_append.2 ⟨hts, hus, fun _ _ u hu => .inr (h u hu)⟩

theorem isChain_cons_of_isNumber {t : Token} {ts : List Token} (ht : t.isNumber = false)
    (hts : ts.IsChain Token.Apart) : (t :: ts).IsChain Token.Apart :=
  List.isChain_cons.2 ⟨fun _ _ => .inl ht, hts⟩

mutual

theorem isChain_tokens : ∀ v : Json, (tokens v).IsChain Token.Apart
  | .null | .bool _ | .number _ | .string _ => .singleton _
  | .array items => by
    rw [tokens]
    exact isChain_cons_of_isNumber rfl
      (isChain_append_of_head? (isChain_itemTokens items).tail (.singleton _) (by rintro _ ⟨⟩; rfl))
  | .object members => by
    rw [tokens]
    exact isChain_cons_of_isNumber rfl
      (isChain_append_of_head? (isChain_memberTokens members).tail (.singleton _)
        (by rintro _ ⟨⟩; rfl))

theorem isChain_itemTokens : ∀ vs : List Json, (itemTokens vs).IsChain Token.Apart
  | [] => .nil
  | v :: vs => by
    have hcomma : ∀ t ∈ (itemTokens vs).head?, t.isNumber = false := by
      cases vs with
      | nil => nofun
      | cons => rintro _ ⟨⟩; rfl
    rw [itemTokens]
    exact isChain_cons_of_isNumber rfl
      (isChain_append_of_head? (isChain_tokens v) (isChain_itemTokens vs) hcomma)

theorem isChain_memberTokens : ∀ ms : List (List Piece × Json),
    (memberTokens ms).IsChain Token.Apart
  | [] => .nil
  | (key, v) :: ms => by
    have hcomma : ∀ t ∈ (memberTokens ms).head?, t.isNumber = false := by
      cases ms with
      | nil => nofun
      | cons => rintro _ ⟨⟩; rfl
    rw [memberTokens]
    refine isChain_cons_of_isNumber rfl (isChain_cons_of_isNumber rfl
      (isChain_cons_of_isNumber rfl ?_))
    exact isChain_append_of_head? (isChain_tokens v) (isChain_memberTokens ms) hcomma

end

/-- A text of a value is read as this value. -/
theorem parse_of_written {v : Json} {text : List Char} (h : Written v text) :
    parse text = some v := by
  rw [parse, lex_of_spaced h (isChain_tokens v), Option.bind_some, ← List.append_nil (tokens v),
    readValue_tokens, readAfter]

/-! ## Natural numbers and plain texts -/

/-- A natural number, as it is written. -/
def Number.ofNat (n : Nat) : Number := ⟨false, Numeral.digits 10 n, []⟩

theorem Number.wellFormed_ofNat (n : Nat) : (Number.ofNat n).WellFormed where
  whole := by
    rcases Nat.eq_zero_or_pos n with rfl | hpos
    · exact .inl (Numeral.digits_of_lt (by decide))
    · refine .inr ⟨⟨?_, Numeral.isDigit_of_mem_digits⟩, ?_⟩
      · exact List.ne_nil_of_length_pos (Numeral.length_digits_pos 10 n)
      · exact Numeral.head?_digits_ne (by decide) (by decide) hpos
  decimals := ⟨[], [], .inl rfl, .inl rfl, rfl⟩

theorem Number.nat?_ofNat {limit n : Nat} (h : n < limit) :
    (Number.ofNat n).nat? limit = some n := by
  have hdigits : Numeral.digits 10 n ≠ [] :=
    List.ne_nil_of_length_pos (Numeral.length_digits_pos 10 n)
  rw [Number.nat?, if_neg (by simp [ofNat]), ofNat, Numeral.read?_of_ne_nil hdigits]
  exact Numeral.readFrom?_digits (by decide) (by decide) h

/-- Nothing but characters that stand for themselves in a string. -/
def Plain (cs : List Char) : Prop := ∀ c ∈ cs, c ≠ '"' ∧ c ≠ '\\' ∧ 0x20 ≤ c.toNat

instance (cs : List Char) : Decidable (Plain cs) := List.decidableBAll _ cs

theorem joined_plain {cs : List Char} (h : Plain cs) :
    Joined Piece.Spelled (cs.map .char) cs := by
  induction cs with
  | nil => exact .nil
  | cons c cs ih =>
    obtain ⟨⟨hquote, hslash, hcontrol⟩, hcs⟩ := List.forall_mem_cons.1 h
    exact .cons (.plain hquote hslash hcontrol) (ih hcs)

theorem characters?_map_char (cs : List Char) : characters? (cs.map .char) = some cs := by
  induction cs with
  | nil => rfl
  | cons c cs ih => rw [List.map_cons, characters?, ih, Option.map_some]

end Json

end Chip8
