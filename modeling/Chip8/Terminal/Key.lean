/-!
# Keys of a terminal

A terminal reports events of its keys. `KeyEvent.stroke` keeps of an event what tells keys
apart : the case of an ASCII letter does not count, nor does any modifier but `ctrl` with a
character.

A key map sends strokes to keys of the machine's keypad. `KeyMap.default` binds the classic
hex pad on function keys, `ctrl` letters and arrows, and the left of a keyboard besides.
-/

namespace Chip8

/-- The keys that a terminal can report. -/
inductive KeyCode where
  | char (c : Char)
  | function (n : UInt8)
  | tab
  | backTab
  | enter
  | escape
  | up
  | down
  | left
  | right
  | home
  | last
  | pageUp
  | pageDown
  | insert
  | delete
  | backspace
  | null
  /-- A key known by its number only, such as a lock or a modifier. -/
  | special (number : Nat)
  deriving DecidableEq, Repr

/-- The modifiers that are held with a key. -/
structure Modifiers where
  ctrl : Bool := false
  shift : Bool := false
  alt : Bool := false
  deriving DecidableEq, Repr

/-- Whether a key went down, is held, or went up. -/
inductive KeyEventKind where
  | press
  | repeated
  | release
  deriving DecidableEq, Repr

/-- An event of a key. -/
structure KeyEvent where
  /-- The key. -/
  code : KeyCode
  /-- The modifiers held with it. -/
  modifiers : Modifiers := {}
  /-- What happened to it. -/
  kind : KeyEventKind := .press
  deriving DecidableEq, Repr

/-- A key and the modifiers that count. -/
structure KeyStroke where
  /-- The key. -/
  code : KeyCode
  /-- The modifiers that count. -/
  modifiers : Modifiers := {}
  deriving DecidableEq, Repr

/-- A character with `ctrl`. -/
def KeyStroke.ctrl (c : Char) : KeyStroke := ⟨.char c, { ctrl := true }⟩

/-- What tells the key of an event from others. -/
def KeyEvent.stroke (e : KeyEvent) : KeyStroke :=
  match e.code with
  | .char c => if e.modifiers.ctrl then .ctrl c.toLower else ⟨.char c.toLower, {}⟩
  | code => ⟨code, {}⟩

/-- Strokes with the keys of the machine that they press. -/
abbrev KeyMap := List (KeyStroke × UInt8)

namespace KeyMap

/-- The key that a stroke presses. -/
def lookup? (m : KeyMap) (s : KeyStroke) : Option UInt8 := (m.find? fun e => e.1 = s).map Prod.snd

/-- The map with a stroke bound to a key, whatever it was bound to. -/
def bind (m : KeyMap) (s : KeyStroke) (key : UInt8) : KeyMap :=
  (s, key) :: m.filter fun e => e.1 ≠ s

/-- The map of bindings, of which a later one replaces an earlier one of the same stroke. -/
def ofList (bindings : List (KeyStroke × UInt8)) : KeyMap :=
  bindings.foldl (fun m e => m.bind e.1 e.2) []

/-- The function keys `F2` to `F10` for the keys `1` to `9`. -/
def functionKeys : List (KeyStroke × UInt8) :=
  [1, 2, 3, 4, 5, 6, 7, 8, 9].map fun key => (⟨.function (key + 1), {}⟩, key)

/-- The letters `a` to `f` with `ctrl` for the keys `A` to `F`. -/
def controlKeys : List (KeyStroke × UInt8) :=
  [(.ctrl 'a', 0xA), (.ctrl 'b', 0xB), (.ctrl 'c', 0xC), (.ctrl 'd', 0xD), (.ctrl 'e', 0xE),
    (.ctrl 'f', 0xF)]

/-- The keys that have a name, and the arrows. -/
def namedKeys : List (KeyStroke × UInt8) :=
  [(⟨.tab, {}⟩, 0x0), (⟨.down, {}⟩, 0x2), (⟨.left, {}⟩, 0x4), (⟨.right, {}⟩, 0x6),
    (⟨.up, {}⟩, 0x8), (⟨.enter, {}⟩, 0x5)]

/-- Four by four characters at the left of a keyboard, laid out as the keypad is. -/
def characterKeys : List (KeyStroke × UInt8) :=
  [('1', 0x1), ('2', 0x2), ('3', 0x3), ('4', 0xC),
   ('q', 0x4), ('w', 0x5), ('e', 0x6), ('r', 0xD),
   ('a', 0x7), ('s', 0x8), ('d', 0x9), ('f', 0xE),
   ('z', 0xA), ('x', 0x0), ('c', 0xB), ('v', 0xF)].map fun (c, key) => (⟨.char c, {}⟩, key)

/-- The key map of a new terminal. -/
def default : KeyMap := ofList (namedKeys ++ functionKeys ++ controlKeys ++ characterKeys)

theorem lookup?_bind_self (m : KeyMap) (s : KeyStroke) (key : UInt8) :
    (m.bind s key).lookup? s = some key := by simp [lookup?, bind]

theorem lookup?_bind_of_ne (m : KeyMap) {s t : KeyStroke} (key : UInt8) (h : t ≠ s) :
    (m.bind s key).lookup? t = m.lookup? t := by
  have hs : ¬s = t := fun e => h e.symm
  simp only [lookup?, bind, List.find?_cons, hs, decide_false, List.find?_filter]
  congr 2
  funext e
  by_cases he : e.1 = t
  · simp [he, h]
  · simp [he]

end KeyMap

end Chip8
