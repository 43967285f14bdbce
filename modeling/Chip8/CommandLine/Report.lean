import Chip8.CommandLine.Arguments
import Chip8.Overflow

/-!
# Reports

What the program leaves behind when it ends : an exit code and two texts. A failure is
reported by its summary and the causes below it, numbered if there are several. An overflow is
reported by its message alone.
-/

namespace Chip8

namespace CommandLine

/-- How the program ends. -/
structure Outcome where
  /-- The exit code. -/
  code : UInt8
  /-- What was written to the standard output. -/
  output : String := ""
  /-- What was written to the standard error. -/
  errors : String := ""
  deriving DecidableEq, Repr

/-! ## Failures -/

/-- A cause among several : its number in five columns. -/
def numberedCause (cause : String) (number : Nat) : String :=
  let digits := Numeral.digits 10 number
  String.ofList (List.replicate (5 - digits.length) ' ' ++ digits) ++ ": " ++ cause ++ "\n"

/-- The causes of a failure, from the nearest to the last. -/
def causesText : List String → String
  | [] => ""
  | [cause] => "\nCaused by:\n    " ++ cause ++ "\n"
  | causes => "\nCaused by:\n" ++ String.join (causes.zipIdx.map fun (c, k) => numberedCause c k)

/-- The report of a failure. -/
def reportText (summary : String) (causes : List String) : String :=
  "Error: " ++ summary ++ "\n" ++ causesText causes

/-- A failure with its report. -/
def failure (summary : String) (causes : List String) : Outcome :=
  { code := 1, errors := reportText summary causes }

/-- The causes that a fault contributes : an error of a file is a cause of its own. -/
def causesOf (fault : Fault) : List String :=
  match fault with
  | .file e => [fault.message, e.message]
  | _ => [fault.message]

/-- How the program ends after an overflow. -/
def stopped (overflow : Overflow) : Outcome :=
  { code := 101, errors := overflow.message ++ "\n" }

/-! ## Usage -/

/-- The name and the version of the program. -/
def versionText : String := "hachi 0.1.0\n"

/-- How the program is called. -/
def helpText : String :=
  "Usage: hachi [OPTIONS] <COMMAND>\n\nCommands:\n"
    ++ "  run     Run a program in the terminal. Esc quits.\n"
    ++ "  disasm  Print the disassembly of a program\n"
    ++ "  config  Print the effective machine settings as JSON\n"
    ++ "  help    Print this message\n\nOptions:\n"
    ++ "  -v, --verbose  Enable debug logging\n"
    ++ "  -h, --help     Print help\n"
    ++ "  -V, --version  Print version\n"

namespace UsageError

/-- The wording of a usage error. -/
def message : UsageError → String
  | unknownArgument => "unexpected argument"
  | unknownCommand => "unrecognized subcommand"
  | missingArgument => "a required argument was not provided"
  | missingCommand => "a subcommand is required but was not provided"
  | repeated => "an argument cannot be used multiple times"
  | badValue => "invalid value"
  | missingValue => "a value is required but none was supplied"
  | unwantedValue => "unexpected value for a flag"
  | helpWanted | versionWanted | nothingGiven => ""

/-- How the program ends when a command line is not carried out. -/
def outcome : UsageError → Outcome
  | helpWanted => { code := 0, output := helpText }
  | versionWanted => { code := 0, output := versionText }
  | nothingGiven => { code := 2, errors := helpText }
  | e => { code := 2, errors := "error: " ++ e.message ++ "\n" }

end UsageError

end CommandLine

end Chip8
