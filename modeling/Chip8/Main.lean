import Chip8.CommandLine.Program

/-!
# The command line

Reads the files that a command names, carries the command out, and lets a session have its
frames in real time. Sessions run without a terminal : nothing is drawn and no key is read.
-/

open Chip8 Chip8.CommandLine

/-- Reads a file. -/
def readPath (path : String) : IO (Except FileError ByteArray) := do
  try
    return .ok (← IO.FS.readBinFile path)
  catch
    | .noFileOrDirectory .. => return .error .notFound
    | .inappropriateType .. => return .error .isDirectory
    | e => return .error (.other (toString e))

/-- Reads the files that a command line names. -/
def readFiles (arguments : List String) : IO Files := do
  let paths :=
    match CommandLine.read arguments with
    | .ok invocation => invocation.command.paths
    | .error _ => []
  let known ← paths.mapM fun path => do return (path, ← readPath path)
  return fun path => (known.lookup path).getD (.error .notFound)

/-- A seed from the random numbers of the system. -/
def systemSeed : IO UInt64 := do
  let bytes ← IO.getRandomBytes 8
  return bytes.foldl (fun seed b => seed * 256 + b.toUInt64) 0

/-- Sleeps until a time since `opened`, in nanoseconds. -/
def sleepUntil (time opened : Nat) : IO Unit := do
  let passed := (← IO.monoNanosNow) - opened
  if passed < time then IO.sleep (UInt32.ofNat ((time - passed) / 1000000))

/-- Runs a session to its end. No frame begins before the one before it is due. -/
partial def play (s : Session) (opened : Nat) : IO Session := do
  if s.ended then return s
  if s.left = 0 then sleepUntil s.due opened
  play s.step.1 opened

/-- Prints what the program leaves behind, behind what gives the terminal back, and gives its exit
code. -/
def report (outcome : Outcome) (closing : List Terminal.Command) : IO UInt32 := do
  (← IO.getStdout).putStr (Terminal.Command.render closing ++ outcome.output)
  (← IO.getStderr).putStr outcome.errors
  return outcome.code.toUInt32

def main (arguments : List String) : IO UInt32 := do
  let env : Environment :=
    { files := ← readFiles arguments, random := Random.ofSeed (← systemSeed) }
  match (start env arguments).1 with
  | .ended outcome => report outcome []
  | .session s =>
    let s ← play s (← IO.monoNanosNow)
    report (s.outcome env.color) s.close
