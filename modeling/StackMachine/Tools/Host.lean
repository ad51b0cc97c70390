import StackMachine.Error
import StackMachine.Files.Tree
import StackMachine.Log.Journal
import StackMachine.Settings
import StackMachine.Text.Utf8

/-!
# The surroundings of a tool

Tools read and write files and log what they do.  They are written for any monad that
offers this, so the same definitions run on the real file system and on a `Workspace`,
which is a value.

Main definitions:

- `Host`, what a tool asks of its surroundings;
- `Workspace`, a directory tree with a log;
- `readBytes`, `readText`, `writeBytes`, whole files with their errors.
-/

namespace StackMachine

/-- What a tool asks of its surroundings.  A failure is the text of its reason. -/
class Host (m : Type → Type) where
  /-- The contents of a file. -/
  read : String → m (Except String (List UInt8))
  /-- Writes a file, replacing one that exists. -/
  write : String → List UInt8 → m (Except String Unit)
  /-- Removes a file, if that is possible. -/
  remove : String → m Unit
  /-- Why a file cannot be written, if it cannot. -/
  refusal : String → m (Option String)
  /-- Logs a message. -/
  log : Level → String → m Unit
  /-- Sets how log lines look. -/
  configure : Settings → m Unit

/-- Files and a log. -/
structure Workspace where
  files : FileTree
  journal : Journal

/-- The log with the given settings. -/
def Journal.configure (j : Journal) (s : Settings) : Journal :=
  { j with threshold := s.logLevel, timestamps := s.logTimestamp }

instance : Host (StateM Workspace) where
  read path := do
    return ((← get).files.read path).mapError PathError.message
  write path bytes := do
    let w ← get
    match w.files.write path bytes with
    | .ok files =>
      set { w with files }
      return .ok ()
    | .error e => return .error e.message
  remove path := modify fun w =>
    match w.files.remove path with
    | .ok files => { w with files }
    | .error _ => w
  refusal path := do
    match (← get).files.writable path with
    | .ok _ => return none
    | .error e => return some e.message
  log level message := modify fun w => { w with journal := w.journal.write level message }
  configure s := modify fun w => { w with journal := w.journal.configure s }

/-- How a tool ends. -/
inductive Exit where
  | code (n : Nat)
  /-- The process is ended by a signal. -/
  | abort
deriving DecidableEq

/-- The exit of a tool that did what it was asked to. -/
def Exit.success : Exit := .code 0

/-- The exit of a tool that failed. -/
def Exit.failure : Exit := .code 1

namespace Host

variable {m : Type → Type} [Monad m] [Host m]

/-- The error of using a file. -/
def fileError (path reason : String) : Error := .host (.io s!"{path}: {reason}")

/-- The contents of a file. -/
def readBytes (path : String) : m (Except Error (List UInt8)) := do
  return (← Host.read path).mapError (fileError path)

/-- The contents of a text file. -/
def readText (path : String) : m (Except Error String) := do
  match ← readBytes path with
  | .error e => return .error e
  | .ok bytes =>
    match Text.ofBytes? bytes with
    | some text => return .ok text
    | none => return .error (.host (.notText s!"{path}: not valid UTF-8"))

/-- Writes a file. -/
def writeBytes (path : String) (bytes : List UInt8) : m (Except Error Unit) := do
  return (← Host.write path bytes).mapError (fileError path)

/-- A path with an extension appended. -/
def withExtension (path extension : String) : String := s!"{path}.{extension}"

/-- Lines as one text. -/
def textOf (lines : List String) : String := String.join (lines.map (· ++ "\n"))

/-- Reads the settings, or ends the tool if they are invalid. -/
def withSettings (lookup : String → Option String) (tool : Settings → m Exit) : m Exit := do
  match Settings.ofEnvironment lookup with
  | .error e =>
    Host.log .error e.message
    return .failure
  | .ok settings =>
    Host.configure settings
    tool settings

/-- Whether the arguments ask for help. -/
def asksForHelp (args : List String) : Bool := args.any fun a => a == "-h" || a == "--help"

end Host

end StackMachine
