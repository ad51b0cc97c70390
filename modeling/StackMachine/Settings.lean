import StackMachine.Error
import StackMachine.Log.Level
import StackMachine.Operand.Notation
import StackMachine.Stack.Guarded

/-!
# Settings

The settings of the tools come from environment variables.  The variables are read in a
fixed order, and the first that has no meaning is reported.
-/

namespace StackMachine

/-- The settings of the tools. -/
structure Settings where
  logLevel : Level
  logTimestamp : Bool
  /-- The initial capacity of the stacks of a machine. -/
  stackCapacity : Nat
  /-- The file that pictures are written to. -/
  bitmapPath : String
deriving DecidableEq

namespace Settings

/-- The settings in an environment without variables. -/
def default : Settings := ⟨.info, false, defaultCapacity, "proc_picture.bmp"⟩

/-- Reads a truth value. -/
def parseBool? (text : String) : Option Bool :=
  match Level.keyword text with
  | "1" | "true" | "yes" | "on" => some true
  | "0" | "false" | "no" | "off" | "" => some false
  | _ => none

/-- Reads a number that fits a machine word: digits, perhaps after a plus sign. -/
def parseWord? (text : List Char) : Option Nat :=
  let digits := match text with
    | '+' :: rest => rest
    | rest => rest
  let value := Nat.ofDigitChars 10 digits 0
  if digits.isEmpty || !digits.all Char.isDigit || Operand.wordValues ≤ value then none
  else some value

/-- Reads a capacity. -/
def parseCapacity? (text : String) : Option Nat :=
  (parseWord? (Text.trim text.toList)).filter (0 < ·)

/-- Reads a path. -/
def parsePath? (text : String) : Option String := if text = "" then none else some text

/-- Reads a variable, if it is set. -/
def readVariable {α : Type} (lookup : String → Option String) (key reason : String)
    (parse? : String → Option α) (unset : α) : Except HostError α :=
  match lookup key with
  | none => .ok unset
  | some value =>
    match parse? value with
    | some a => .ok a
    | none => .error (.invalidSetting key value reason)

/-- The settings an environment gives. -/
def ofEnvironment (lookup : String → Option String) : Except HostError Settings := do
  let logLevel ← readVariable lookup "DKVM_LOG"
    "expected debug, info, warn or error" Level.parse? default.logLevel
  let logTimestamp ← readVariable lookup "DKVM_LOG_TIMESTAMP"
    "expected a boolean" parseBool? default.logTimestamp
  let stackCapacity ← readVariable lookup "DKVM_STACK_CAPACITY"
    "expected a positive integer" parseCapacity? default.stackCapacity
  let bitmapPath ← readVariable lookup "DKVM_BITMAP_PATH"
    "path must not be empty" parsePath? default.bitmapPath
  return ⟨logLevel, logTimestamp, stackCapacity, bitmapPath⟩

end Settings

end StackMachine
