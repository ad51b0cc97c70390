import StackMachine.Assembly.Assemble
import StackMachine.Tools.Host

/-!
# The assembler tool

Assembles each of its arguments into a file next to it.  A file that cannot be
assembled is reported, what was there in place of its output is removed, and the files
after it are still assembled.
-/

namespace StackMachine.AssemblerTool

variable {m : Type → Type} [Monad m] [Host m]

/-- The extension of assembled files. -/
def extension : String := "dk"

/-- Assembles a file and gives the path of the output.  The output file is created
before the text is looked at, and removed again if the text is at fault. -/
def assembleFile (path : String) : m (Except Error String) := do
  match ← Host.readText path with
  | .error e => return .error e
  | .ok source =>
    let output := Host.withExtension path extension
    match ← Host.writeBytes output [] with
    | .error e => return .error e
    | .ok () =>
      match Assembly.assemble source with
      | .error fault =>
        Host.remove output
        Host.log .error (fault.toError.diagnostic path source)
        return .error fault.toError
      | .ok program =>
        match ← Host.writeBytes output program.bytes.toList with
        | .error e =>
          Host.remove output
          Host.log .error (e.diagnostic path source)
          return .error e
        | .ok () =>
          Host.log .debug s!"assembled {path} -> {output}"
          return .ok output

/-- Assembles files one after the other, and counts those that fail. -/
def assembleAll : List String → m Nat
  | [] => return 0
  | path :: paths => do
    match ← assembleFile path with
    | .ok output =>
      Host.log .info s!"{path} -> {output}"
      assembleAll paths
    | .error _ => return (← assembleAll paths) + 1

/-- How to use the tool. -/
def usage (name : String) : String :=
  Host.textOf
    ["Assembler",
     "",
     "USAGE:",
     s!"    {name} <file>...",
     "",
     "ARGS:",
     "    <file>...    Assembly sources, each compiled to <file>.dk",
     "",
     "OPTIONS:",
     "    -h, --help   Print this help message",
     "",
     "ENVIRONMENT:",
     "    DKVM_LOG             debug | info | warn | error",
     "    DKVM_LOG_TIMESTAMP   prefix log lines with a UTC timestamp"]

/-- The tool, called by the given name. -/
def run (name : String) (lookup : String → Option String) (args : List String) : m Exit := do
  if Host.asksForHelp args then
    Host.log .info (usage name)
    return .success
  else
    Host.withSettings lookup fun _ => do
      if args.isEmpty then
        Host.log .error "no input files"
        return .failure
      else
        let failed ← assembleAll args
        if failed = 0 then return .success
        else
          Host.log .error s!"{failed} of {args.length} file(s) failed to assemble"
          return .failure

end StackMachine.AssemblerTool
