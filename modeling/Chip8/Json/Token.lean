import Chip8.Text.Blank
import Chip8.Text.Numeral

/-!
# Tokens of a JSON text

`Json.lex` cuts a text into tokens and fails where no token can start or where one is
left unfinished. A string token keeps its characters and its `\u` escapes apart, since a
lone surrogate is an error only for those who need the characters (`Json.characters?`).
A number token keeps the digits that were written.
-/

namespace Chip8

namespace Json

/-! ## Strings -/

/-- A character of a string literal, or the code unit of an escape of four hex digits. -/
inductive Piece where
  | char (c : Char)
  | unit (value : Nat)
  deriving DecidableEq, Repr

/-- The value of four hex digits. -/
def unit? (a b c d : Char) : Option Nat := Numeral.read? 16 0x10000 [a, b, c, d]

/-- The character that a backslash and a character other than `u` stand for. -/
def escaped? : Char → Option Char
  | '"' => some '"'
  | '\\' => some '\\'
  | '/' => some '/'
  | 'b' => some '\x08'
  | 'f' => some '\x0c'
  | 'n' => some '\n'
  | 'r' => some '\r'
  | 't' => some '\t'
  | _ => none

/-- The rest of a string literal whose beginning is `done`, and the text behind it. -/
def scanString (done : List Piece) : List Char → Option (List Piece × List Char)
  | [] => none
  | '"' :: r => some (done.reverse, r)
  | '\\' :: 'u' :: a :: b :: c :: d :: r =>
    match unit? a b c d with
    | some value => scanString (.unit value :: done) r
    | none => none
  | '\\' :: e :: r =>
    match escaped? e with
    | some c => scanString (.char c :: done) r
    | none => none
  | c :: r =>
    if c = '\\' ∨ c.toNat < 0x20 then none else scanString (.char c :: done) r

/-- The characters of a literal; a surrogate has to be one half of a pair. -/
def characters? : List Piece → Option (List Char)
  | [] => some []
  | .char c :: ps => (characters? ps).map (c :: ·)
  | .unit u :: ps =>
    if u < 0xD800 ∨ 0xE000 ≤ u then (characters? ps).map (Char.ofNat u :: ·)
    else
      match ps with
      | .unit w :: ps =>
        if u < 0xDC00 ∧ 0xDC00 ≤ w ∧ w < 0xE000 then
          (characters? ps).map
            (Char.ofNat (0x10000 + (u - 0xD800) * 0x400 + (w - 0xDC00)) :: ·)
        else none
      | _ => none

theorem length_scanString {cs : List Char} {done ps : List Piece} {r : List Char}
    (h : scanString done cs = some (ps, r)) : r.length < cs.length := by
  fun_induction scanString done cs <;> simp_all <;> omega

/-! ## Numbers -/

/-- A number as it was written. -/
structure Number where
  /-- Whether a minus sign stands in front. -/
  negative : Bool
  /-- The digits of the whole part. -/
  whole : List Char
  /-- The fraction and the exponent, with their marks. -/
  decimals : List Char
  deriving DecidableEq, Repr

/-- The value of a number that is written as a natural number below `limit`. -/
def Number.nat? (limit : Nat) (n : Number) : Option Nat :=
  if n.negative ∨ n.decimals ≠ [] then none else Numeral.read? 10 limit n.whole

/-- One or more digits behind `start`, and the text behind them. -/
def scanDigits (start : List Char) (cs : List Char) : Option (List Char × List Char) :=
  let ds := cs.takeWhile Char.isDigit
  if ds.isEmpty then none else some (start ++ ds, cs.dropWhile Char.isDigit)

/-- The whole part of a number : a zero, or digits of which the first is none. -/
def scanWhole : List Char → Option (List Char × List Char)
  | '0' :: cs => some (['0'], cs)
  | cs => scanDigits [] cs

/-- The fraction of a number, if there is one. -/
def scanFraction : List Char → Option (List Char × List Char)
  | '.' :: cs => scanDigits ['.'] cs
  | cs => some ([], cs)

/-- The exponent of a number, if there is one. -/
def scanExponent : List Char → Option (List Char × List Char)
  | c :: cs =>
    if c = 'e' ∨ c = 'E' then
      match cs with
      | '+' :: cs => scanDigits [c, '+'] cs
      | '-' :: cs => scanDigits [c, '-'] cs
      | cs => scanDigits [c] cs
    else some ([], c :: cs)
  | [] => some ([], [])

/-- A number without its sign, and the text behind it. -/
def scanNumber (negative : Bool) (cs : List Char) : Option (Number × List Char) := do
  let (whole, cs) ← scanWhole cs
  let (fraction, cs) ← scanFraction cs
  let (exponent, cs) ← scanExponent cs
  return (⟨negative, whole, fraction ++ exponent⟩, cs)

theorem length_scanDigits {start cs ds r : List Char} (h : scanDigits start cs = some (ds, r)) :
    r.length < cs.length := by
  simp only [scanDigits] at h
  have hl := congrArg List.length (@List.takeWhile_append_dropWhile Char Char.isDigit cs)
  simp only [List.length_append] at hl
  split at h
  · cases h
  · rename_i hd
    have : 0 < (cs.takeWhile Char.isDigit).length := by
      rw [List.length_pos_iff]; simpa using hd
    simp only [Option.some.injEq, Prod.mk.injEq] at h
    obtain ⟨-, rfl⟩ := h
    omega

theorem length_scanWhole {cs ds r : List Char} (h : scanWhole cs = some (ds, r)) :
    r.length < cs.length := by
  unfold scanWhole at h
  split at h
  · simp at h; simp [h.2]
  · exact length_scanDigits h

theorem length_scanFraction {cs ds r : List Char} (h : scanFraction cs = some (ds, r)) :
    r.length ≤ cs.length := by
  unfold scanFraction at h
  split at h
  · have := length_scanDigits h; simp; omega
  · simp at h; simp [h.2]

theorem length_scanExponent {cs ds r : List Char} (h : scanExponent cs = some (ds, r)) :
    r.length ≤ cs.length := by
  unfold scanExponent at h
  split at h
  · split at h
    · split at h <;> have := length_scanDigits h <;> simp <;> omega
    · simp at h; simp [← h.2]
  · simp at h; simp [h.2]

theorem length_scanNumber {negative : Bool} {cs r : List Char} {n : Number}
    (h : scanNumber negative cs = some (n, r)) : r.length < cs.length := by
  simp only [scanNumber, Option.bind_eq_bind, Option.bind_eq_some_iff] at h
  obtain ⟨⟨w, c₁⟩, h₁, ⟨f, c₂⟩, h₂, ⟨e, c₃⟩, h₃, h₄⟩ := h
  simp only at h₂ h₃ h₄
  have := length_scanWhole h₁
  have := length_scanFraction h₂
  have := length_scanExponent h₃
  simp at h₄
  obtain ⟨-, rfl⟩ := h₄
  omega

/-! ## Tokens -/

/-- The tokens of JSON. -/
inductive Token where
  | openBrace
  | closeBrace
  | openBracket
  | closeBracket
  | comma
  | colon
  | null
  | bool (value : Bool)
  | number (value : Number)
  | string (pieces : List Piece)
  deriving DecidableEq, Repr

/-- Whether a character may stand between tokens. -/
def isSpace (c : Char) : Bool := c == ' ' || c == '\n' || c == '\t' || c == '\r'

/-- The token that begins with `c`, and the text behind it. -/
def scanToken (c : Char) (cs : List Char) : Option (Token × List Char) :=
  match c with
  | '{' => some (.openBrace, cs)
  | '}' => some (.closeBrace, cs)
  | '[' => some (.openBracket, cs)
  | ']' => some (.closeBracket, cs)
  | ',' => some (.comma, cs)
  | ':' => some (.colon, cs)
  | 'n' => (Text.strip? ['u', 'l', 'l'] cs).map (Token.null, ·)
  | 't' => (Text.strip? ['r', 'u', 'e'] cs).map (Token.bool true, ·)
  | 'f' => (Text.strip? ['a', 'l', 's', 'e'] cs).map (Token.bool false, ·)
  | '"' => (scanString [] cs).map fun (s, r) => (.string s, r)
  | '-' => (scanNumber true cs).map fun (n, r) => (.number n, r)
  | c => (scanNumber false (c :: cs)).map fun (n, r) => (.number n, r)

theorem length_scanToken {c : Char} {cs r : List Char} {t : Token}
    (h : scanToken c cs = some (t, r)) : r.length ≤ cs.length := by
  have strip : ∀ {s : List Char}, Text.strip? s cs = some r → r.length ≤ cs.length := by
    intro s hs
    simp only [Text.strip?, Option.ite_none_right_eq_some, Option.some.injEq] at hs
    rw [← hs.2]; simp
  unfold scanToken at h
  split at h <;>
    simp only [Option.some.injEq, Prod.mk.injEq, Option.map_eq_some_iff] at h
  any_goals (obtain ⟨-, rfl⟩ := h; exact Nat.le_refl _)
  any_goals (obtain ⟨_, hs, -, rfl⟩ := h; exact strip hs)
  · obtain ⟨⟨_, _⟩, hs, -, rfl⟩ := h
    exact Nat.le_of_lt (length_scanString hs)
  · obtain ⟨⟨_, _⟩, hs, -, rfl⟩ := h
    exact Nat.le_of_lt (length_scanNumber hs)
  · obtain ⟨⟨_, _⟩, hs, -, rfl⟩ := h
    have := length_scanNumber hs
    simp only [List.length_cons] at this ⊢
    omega

/-- The tokens of a text, behind those already found. -/
def lexFrom (done : List Token) : List Char → Option (List Token)
  | [] => some done.reverse
  | c :: cs =>
    if isSpace c then lexFrom done cs
    else
      match h : scanToken c cs with
      | none => none
      | some (t, r) =>
        have := length_scanToken h
        lexFrom (t :: done) r
termination_by cs => cs.length

/-- The tokens of a text. -/
def lex (cs : List Char) : Option (List Token) := lexFrom [] cs

end Json

end Chip8
