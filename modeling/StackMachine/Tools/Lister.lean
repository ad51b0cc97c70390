import StackMachine.Program.Listing
import StackMachine.Tools.Host

/-!
# The listing tool

Writes the listing of each of its arguments into a file next to it.
-/

namespace StackMachine.ListerTool

variable {m : Type → Type} [Monad m] [Host m]

/-- The extension of listings. -/
def extension : String := "dasm"

/-- Reads a program. -/
def readProgram (path : String) : m (Except Error Program) := do
  return (← Host.readBytes path).bind fun bytes => (Program.ofBytes bytes).mapError .host

/-- Writes a program. -/
def writeProgram (path : String) (program : Program) : m (Except Error Unit) :=
  Host.writeBytes path program.bytes.toList

/-- Lists a file and gives the path of the listing. -/
def listFile (path : String) : m (Except Error String) := do
  match (← readProgram path).bind fun program => program.listing.mapError .code with
  | .error e => return .error e
  | .ok listing =>
    let output := Host.withExtension path extension
    match ← Host.writeBytes output (Text.toBytes listing) with
    | .error e => return .error e
    | .ok () =>
      Host.log .debug s!"disassembled {path} -> {output}"
      return .ok output

/-- Lists files one after the other, and counts those that fail. -/
def listAll : List String → m Nat
  | [] => return 0
  | path :: paths => do
    match ← listFile path with
    | .ok output =>
      Host.log .info s!"{path} -> {output}"
      listAll paths
    | .error e =>
      Host.log .error s!"{path}: {e.message}"
      return (← listAll paths) + 1

/-- How to use the tool. -/
def usage (name : String) : String :=
  Host.textOf
    ["Disassembler",
     "",
     "USAGE:",
     s!"    {name} <file>...",
     "",
     "ARGS:",
     "    <file>...    Bytecode artifacts, each listed to <file>.dasm",
     "",
     "OPTIONS:",
     "    -h, --help   Print this help message"]

/-- The tool, called by the given name. -/
def run (name : String) (lookup : String → Option String) (args : List String) : m Exit := do
  if Host.asksForHelp args then
    Host.log .info (usage name)
    return .success
  else
    Host.withSettings lookup fun _ => do
      if args.isEmpty then
        Host.log .error "no input files"
        return .failure
      else
        return if (← listAll args) = 0 then .success else .failure

end StackMachine.ListerTool
