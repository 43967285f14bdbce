import Chip8.Machine.Cycle
import Chip8.Terminal.Key
import Chip8.Terminal.Panel

/-!
# The terminal as a platform

A terminal presses keys for key events and shows what the machine does. Terminals report no
releases, so `Terminal.releaseStale` lets go of a key once `keyHold` has passed since it was
pressed last.

Every operation gives the terminal after it, and the commands that it sends. Nothing is sent
while the terminal is not `active`, apart from panels that are drawn on request. Of them only the
status may be stopped by an overflow, which `beginCycle` passes on.
-/

namespace Chip8

/-- Why a platform refuses data. -/
inductive PlatformError where
  /-- The platform takes no data. -/
  | noSettableData
  /-- There is no data with the key, or it cannot be set. -/
  | unknownKey (key : String)
  /-- The data with the key is of another type. -/
  | wrongType (key expected : String)
  deriving DecidableEq, Repr

/-- The wording of a platform error. -/
def PlatformError.message : PlatformError → String
  | noSettableData => "This platform has no settable data"
  | unknownKey key => "Unknown data key '" ++ key ++ "'"
  | wrongType key expected => "Invalid type for '" ++ key ++ "', expected " ++ expected

/-- Data that a platform shares with its host. -/
inductive PlatformData where
  /-- A key map. -/
  | keyMap (map : KeyMap)
  /-- System calls, newest first. -/
  | syscalls (calls : List Terminal.Syscall)
  /-- Data that no platform knows. -/
  | other

/-- A terminal that shows a machine. -/
structure Terminal where
  /-- The keys that strokes press. -/
  keyMap : KeyMap := KeyMap.default
  /-- When each key was pressed last, for keys that were not let go since. -/
  pressedAt : Vector (Option Nat) 16 := Vector.replicate 16 none
  /-- The latest system calls, newest first. -/
  syscalls : List Terminal.Syscall := []
  /-- The screen as it was drawn last. -/
  lastScreen : Array UInt8 := #[]
  /-- When the status was drawn last in a cycle. -/
  lastStatus : Option Nat := none
  /-- Whether the terminal is taken over. -/
  active : Bool := false
  /-- Whether the session is to end. -/
  quit : Bool := false
  deriving DecidableEq, Repr

namespace Terminal

/-- How long a key stays down, in nanoseconds. -/
def keyHold : Nat := 100000000

/-- The time between two status lines, in nanoseconds. -/
def statusRefresh : Nat := 50000000

/-! ## Keys -/

/-- Presses a key of the keypad, which `down` holds with the others. -/
def press (t : Terminal) (key : Nibble) (down : UInt16) (now : Nat) : Terminal × UInt16 :=
  ({ t with pressedAt := t.pressedAt.set key (some now) (Nibble.lt key) },
   Keypad.press down (UInt8.ofNat key.val))

/-- Takes a key event. Escape ends the session; a release does nothing. -/
def handleKey (t : Terminal) (event : KeyEvent) (down : UInt16) (now : Nat) : Terminal × UInt16 :=
  if event.kind = .release then (t, down)
  else if event.code = .escape then ({ t with quit := true }, down)
  else
    match t.keyMap.lookup? event.stroke with
    | some key => t.press (Nibble.ofNat key.toNat) down now
    | none => (t, down)

/-- Whether a key was pressed more than `keyHold` ago and not let go since. -/
def isStale (t : Terminal) (now : Nat) (key : Nibble) : Bool :=
  match t.pressedAt.get key with
  | some pressed => keyHold < now - pressed
  | none => false

/-- Lets go of a key of the keypad, one of those in `down`. -/
def release (t : Terminal) (down : UInt16) (key : Nibble) : Terminal × UInt16 :=
  ({ t with pressedAt := t.pressedAt.set key none (Nibble.lt key) },
   Keypad.release down (UInt8.ofNat key.val))

/-- Lets go of all keys that were pressed more than `keyHold` ago. -/
def releaseStale (t : Terminal) (down : UInt16) (now : Nat) : Terminal × UInt16 :=
  ((List.finRange 16).filter (t.isStale now)).foldl (fun (t, down) key => t.release down key)
    (t, down)

/-- Takes key events, then lets go of keys. -/
def poll (t : Terminal) (events : List KeyEvent) (down : UInt16) (now : Nat) :
    Terminal × UInt16 :=
  let (t, down) := events.foldl (fun (t, down) e => t.handleKey e down now) (t, down)
  t.releaseStale down now

/-! ## Panels -/

/-- Draws the system calls. -/
def drawSyscalls (t : Terminal) : List Command := syscallPanel t.syscalls

/-- Draws the status. -/
def drawStatus (s : State) : Sent := statusPanel s

/-- The screen as it was drawn last, blank if it had another size. -/
def shownScreen (t : Terminal) (s : Screen) : Array UInt8 :=
  if t.lastScreen.size = s.bytes.size then t.lastScreen else Array.replicate s.bytes.size 0

/-- Draws the pixels that changed. -/
def drawScreen (t : Terminal) (s : State) : Terminal × List Command :=
  ({ t with lastScreen := s.screen.bytes }, screenPanel (t.shownScreen s.screen) s.screen)

/-! ## Callbacks -/

/-- Notes a system call. -/
def noteSyscall (t : Terminal) (call : Syscall) : Terminal × List Command :=
  let t := { t with syscalls := remember t.syscalls call }
  (t, if t.active then t.drawSyscalls else [])

/-- Takes over the terminal for a machine. -/
def enter (t : Terminal) (s : State) : Terminal × List Command :=
  ({ t with lastScreen := Array.replicate s.screen.bytes.size 0, active := true },
   [.enterAlternate, .hideCursor, .clearAll, .moveTo stackColumn 0, .print titles])

/-- What gives a terminal back. -/
def leaving : List Command := [.showCursor, .leaveAlternate, .resetStyle]

/-- Gives the terminal back, if it was taken over. -/
def restore (t : Terminal) : Terminal × List Command :=
  if t.active then ({ t with active := false }, leaving) else (t, [])

/-- What a callback of the machine makes the terminal show. The first and the begin of a
cycle are left to `enter` and `beginCycle`. -/
def handle (t : Terminal) (callback : Callback) : Terminal × List Command :=
  match callback with
  | .init _ | .cycle => (t, [])
  | .clearScreen => t.noteSyscall .clear
  | .beep => t.noteSyscall .beep
  | .screenUpdate seen =>
    let (t, noted) := t.noteSyscall .draw
    if t.active then
      let (t, drawn) := t.drawScreen seen
      (t, noted ++ drawn)
    else (t, noted)

/-- What a sequence of callbacks makes the terminal show. -/
def handleAll (t : Terminal) : List Callback → Terminal × List Command
  | [] => (t, [])
  | c :: cs =>
    let (t, first) := t.handle c
    let (t, rest) := t.handleAll cs
    (t, first ++ rest)

/-- Begins a cycle : takes the key events, and draws the status from time to time. Gives the
keys that are down as well. A terminal that is not taken over does nothing. -/
def beginCycle (t : Terminal) (events : List KeyEvent) (s : State) (now : Nat) :
    Terminal × UInt16 × Sent :=
  if t.active then
    let (t, down) := t.poll events s.keyboard now
    let stale : Bool :=
      match t.lastStatus with
      | some last => statusRefresh ≤ now - last
      | none => true
    if stale then
      ({ t with lastStatus := some now }, down, drawStatus { s with keyboard := down })
    else (t, down, {})
  else (t, s.keyboard, {})

/-! ## Data -/

/-- The data with a key. -/
def data? (t : Terminal) (key : String) : Option PlatformData :=
  if key = "key_map" then some (.keyMap t.keyMap)
  else if key = "syscall_log" then some (.syscalls t.syscalls)
  else none

/-- Sets the data with a key; only the key map can be set. -/
def setData (t : Terminal) (key : String) (data : PlatformData) : Except PlatformError Terminal :=
  if key = "key_map" then
    match data with
    | .keyMap map => .ok { t with keyMap := map }
    | _ => .error (.wrongType key "KeyMap")
  else .error (.unknownKey key)

end Terminal

end Chip8
