/-!
# Blank characters

The characters that Unicode gives the property `White_Space`, and texts without them at
the ends.
-/

namespace Chip8

namespace Text

/-- Whether a character has the Unicode property `White_Space`. -/
def isBlank (c : Char) : Bool :=
  let n := c.toNat
  (0x09 ≤ n && n ≤ 0x0D) || n == 0x20 || n == 0x85 || n == 0xA0 || n == 0x1680
    || (0x2000 ≤ n && n ≤ 0x200A) || n == 0x2028 || n == 0x2029 || n == 0x202F
    || n == 0x205F || n == 0x3000

/-- A text without the blanks before its first other character. -/
def trimStart (cs : List Char) : List Char := cs.dropWhile isBlank

/-- A text without the blanks behind its last other character. -/
def trimEnd (cs : List Char) : List Char := (cs.reverse.dropWhile isBlank).reverse

/-- A text without blanks at either end. -/
def trim (cs : List Char) : List Char := trimEnd (trimStart cs)

/-- The rest of a text that begins with `start`. -/
def strip? (start cs : List Char) : Option (List Char) :=
  if start.isPrefixOf cs then some (cs.drop start.length) else none

/-- The beginning of a text that ends with `final`. -/
def stripEnd? (final cs : List Char) : Option (List Char) :=
  if final.isSuffixOf cs then some (cs.take (cs.length - final.length)) else none

@[simp] theorem trim_nil : trim [] = [] := rfl

theorem strip?_append (start cs : List Char) : strip? start (start ++ cs) = some cs := by
  simp [strip?]

theorem stripEnd?_append (cs final : List Char) : stripEnd? final (cs ++ final) = some cs := by
  simp [stripEnd?]

end Text

end Chip8
