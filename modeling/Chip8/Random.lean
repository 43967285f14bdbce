/-!
# Random numbers

The source of random numbers is the keystream of ChaCha with twelve rounds, a counter of 64
bits that starts at zero, and no nonce. `Random.ofSeed` spreads a seed of 64 bits over the
256 bits of the key by a linear congruence with a permuted output.

`Random.word` is the keystream as a sequence of words. A generator computes a block of
sixteen words at a time and hands them out one by one (`Random.next`).
-/

namespace Chip8

namespace ChaCha

/-! ## Blocks -/

/-- A word rotated to the left. -/
def rotate (x : UInt32) (n : UInt32) : UInt32 := x <<< n ||| x >>> (32 - n)

/-- The words of a block, or of the state behind one. -/
abbrev Words := Vector UInt32 16

theorem lane_lt (k : Nat) : k % 16 < 16 := Nat.mod_lt k (by decide)

/-- The index of a word by its number. -/
def lane (k : Nat) : Fin 16 := ⟨k % 16, lane_lt k⟩

/-- Mixes four words of a state. -/
def mix (s : Words) (a b c d : Fin 16) : Words :=
  let s := s.set a (s[a] + s[b])
  let s := s.set d (rotate (s[d] ^^^ s[a]) 16)
  let s := s.set c (s[c] + s[d])
  let s := s.set b (rotate (s[b] ^^^ s[c]) 12)
  let s := s.set a (s[a] + s[b])
  let s := s.set d (rotate (s[d] ^^^ s[a]) 8)
  let s := s.set c (s[c] + s[d])
  s.set b (rotate (s[b] ^^^ s[c]) 7)

/-- Mixes four words of a state by their numbers. -/
def quarterRound (s : Words) (a b c d : Nat) : Words := mix s (lane a) (lane b) (lane c) (lane d)

/-- Mixes the columns of a state, then its diagonals. -/
def doubleRound (s : Words) : Words :=
  let s := quarterRound s 0 4 8 12
  let s := quarterRound s 1 5 9 13
  let s := quarterRound s 2 6 10 14
  let s := quarterRound s 3 7 11 15
  let s := quarterRound s 0 5 10 15
  let s := quarterRound s 1 6 11 12
  let s := quarterRound s 2 7 8 13
  quarterRound s 3 4 9 14

/-- Six double rounds. -/
def twelveRounds (s : Words) : Words := (List.range 6).foldl (fun s _ => doubleRound s) s

/-- A key of 256 bits. -/
abbrev Key := Vector UInt32 8

/-- The state before the first round : four constants, the key and the number of the block. -/
def start (key : Key) (block : UInt64) : Words :=
  #v[0x61707865, 0x3320646e, 0x79622d32, 0x6b206574,
    key[0], key[1], key[2], key[3], key[4], key[5], key[6], key[7],
    block.toUInt32, (block >>> 32).toUInt32, 0, 0]

/-- A block of the keystream. -/
def block (key : Key) (number : UInt64) : Words :=
  let s := start key number
  (twelveRounds s).zipWith (· + ·) s

end ChaCha

/-! ## Seeds -/

namespace Seed

/-- The linear congruence behind the words of a key. -/
def step (s : UInt64) : UInt64 := s * 6364136223846793005 + 11634580027462260723

/-- The word of a key that belongs to a value of the congruence. -/
def word (s : UInt64) : UInt32 :=
  let x := (((s >>> 18) ^^^ s) >>> 27).toUInt32
  let n := (s >>> 59).toUInt32
  x >>> n ||| x <<< (32 - n)

/-- The value of the congruence after `n` steps. -/
def after (s : UInt64) : Nat → UInt64
  | 0 => s
  | n + 1 => after (step s) n

/-- The key of a seed. -/
def key (s : UInt64) : ChaCha.Key := Vector.ofFn fun i => word (after s (i.val + 1))

end Seed

/-! ## Generators -/

/-- A generator of random words. -/
structure Random where
  /-- The key of the stream. -/
  key : ChaCha.Key
  /-- The number of the next block. -/
  block : UInt64
  /-- The words of the last block that are still to come. -/
  pending : List UInt32
  deriving DecidableEq

namespace Random

/-- The generator of a seed, before its first word. -/
def ofSeed (seed : UInt64) : Random := ⟨Seed.key seed, 0, []⟩

/-- The next word, and the generator after it. -/
def next (g : Random) : UInt32 × Random :=
  match g.pending with
  | w :: ws => (w, { g with pending := ws })
  | [] =>
    match (ChaCha.block g.key g.block).toList with
    | w :: ws => (w, { g with block := g.block + 1, pending := ws })
    | [] => (0, g)

/-- The next byte : the low byte of the next word. -/
def nextByte (g : Random) : UInt8 × Random :=
  let (w, g) := g.next
  (w.toUInt8, g)

/-- Word `j` of the stream of a seed, words counted from zero. -/
def word (seed : UInt64) (j : Nat) : UInt32 :=
  (ChaCha.block (Seed.key seed) (UInt64.ofNat (j / 16)))[j % 16]

instance : Inhabited Random := ⟨ofSeed 0⟩

end Random

end Chip8
