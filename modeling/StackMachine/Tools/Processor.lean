import StackMachine.Machine.Step
import StackMachine.Tools.Lister

/-!
# The processor tool

Verifies a program and runs it.  The run itself is a function of the machine; this
module decides what is run, and reports how it ended.

Main definitions:

- `Request`, what the arguments ask for;
- `prepare`, the machine to run, or the exit of a tool that runs none;
- `conclude`, the exit once the machine has stopped;
- `run`, the tool with a given input and a bound on the number of steps.
-/

namespace StackMachine.ProcessorTool

/-- What the arguments ask for. -/
inductive Request where
  | help
  /-- Run the program in a file, with pictures written to another. -/
  | execute (input bitmapPath : String)
  /-- The arguments make no sense, for the stated reason; with a reminder of the usage
  or without. -/
  | reject (reason : String) (showUsage : Bool)
deriving DecidableEq

/-- Reads the arguments, given the input file and the picture file known so far. -/
def parseArgs (input : Option String) (bitmapPath : String) : List String → Request
  | [] =>
    match input with
    | some file => .execute file bitmapPath
    | none => .reject "no input file" false
  | arg :: args =>
    if arg = "-h" ∨ arg = "--help" then .help
    else if arg = "--bmp" then
      match args with
      | [] => .reject "--bmp requires an argument" false
      | path :: rest => parseArgs input path rest
    else if input.isNone ∧ arg.toList.head? ≠ some '-' then parseArgs (some arg) bitmapPath args
    else .reject s!"unexpected argument: {arg}" true

/-- How to use the tool. -/
def usage (name : String) : String :=
  Host.textOf
    ["Interpreter",
     "",
     "USAGE:",
     s!"    {name} <file.dk> [OPTIONS]",
     "",
     "ARGS:",
     "    <file.dk>    Bytecode artifact produced by asm",
     "",
     "OPTIONS:",
     "    --bmp <path>   Output path of DRAW (defaults to DKVM_BITMAP_PATH or proc_picture.bmp)",
     "    -h, --help     Print this help message",
     "",
     "ENVIRONMENT:",
     "    DKVM_LOG              debug | info | warn | error",
     "    DKVM_LOG_TIMESTAMP    prefix log lines with a UTC timestamp",
     "    DKVM_STACK_CAPACITY   initial capacity of the value and call stacks",
     "    DKVM_BITMAP_PATH      output path of DRAW"]

variable {m : Type → Type} [Monad m] [Host m]

/-- A machine with the file its program is from. -/
structure Job where
  input : String
  machine : Machine

/-- Loads the program of a file. -/
def load (settings : Settings) (input bitmapPath : String) (console : Console) :
    m (Except Exit Job) := do
  match ← ListerTool.readProgram input with
  | .error e =>
    Host.log .error s!"{input}: {e.message}"
    return .error .failure
  | .ok program =>
    let canvas := Canvas.blank bitmapPath (← Host.refusal bitmapPath)
    match Machine.load program settings.stackCapacity console canvas with
    | .error e =>
      Host.log .error s!"{input}: verification failed: {e.message}"
      return .error .failure
    | .ok machine =>
      Host.log .debug s!"running {input}"
      return .ok ⟨input, machine⟩

/-- The machine to run, or the exit if there is none. -/
def prepare (name : String) (lookup : String → Option String) (args : List String)
    (console : Console) : m (Except Exit Job) := do
  match Settings.ofEnvironment lookup with
  | .error e =>
    Host.log .error e.message
    return .error .failure
  | .ok settings =>
    Host.configure settings
    match parseArgs none settings.bitmapPath args with
    | .help =>
      Host.log .info (usage name)
      return .error .success
    | .reject reason showUsage =>
      Host.log .error reason
      if showUsage then Host.log .info (usage name)
      return .error .failure
    | .execute input bitmapPath => load settings input bitmapPath console

/-- Writes the last picture, if there is one. -/
def savePicture (canvas : Canvas) : m Unit :=
  match canvas.picture with
  | some bytes => discard <| Host.write canvas.path bytes
  | none => return ()

/-- Reports how a run ended.  A run that used up its steps has no exit. -/
def conclude (input : String) (outcome : Machine.Outcome) (machine : Machine) :
    m (Option Exit) := do
  machine.notes.reverse.forM (Host.log .debug)
  savePicture machine.canvas
  match outcome with
  | .finished => return some .success
  | .outOfSteps => return none
  | .interrupted (.abort a) =>
    a.lines.forM (Host.log .error)
    return some .abort
  | .interrupted (.failure e) =>
    if e.isFatal then
      Host.log .error s!"fatal: {e.message}\n{machine.dump}"
      return some .abort
    else
      Host.log .error s!"{input}: {e.message}"
      return some .failure

/-- The tool, called by the given name: how it ends, and what it prints. -/
def run (name : String) (lookup : String → Option String) (args : List String)
    (input : List UInt8) (steps : Nat) : m (Option Exit × String) := do
  match ← prepare name lookup args (Console.ofInput input) with
  | .error exit => return (some exit, "")
  | .ok job =>
    let (outcome, machine) := job.machine.run steps
    return (← conclude job.input outcome machine, machine.console.output)

end StackMachine.ProcessorTool
