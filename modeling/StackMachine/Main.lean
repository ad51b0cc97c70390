import Std.Time.DateTime.Timestamp
import StackMachine.Tools.Assembler
import StackMachine.Tools.Benchmark
import StackMachine.Tools.Lister
import StackMachine.Tools.Processor

/-!
# The command line

The four tools on the real file system, console and clock.  The first argument names the
tool, and the others are its arguments.  Everything a tool decides is decided in the
modules imported here; this one reads, prints and waits.
-/

namespace StackMachine.CommandLine

/-! ## The surroundings -/

/-- The reason of a failed system call, with the number of the error. -/
def reasonOf (e : IO.Error) : String :=
  let numbered (code : UInt32) (details : String) := s!"{details} (os error {code.toNat})"
  match e with
  | .alreadyExists _ code details => numbered code details
  | .otherError code details => numbered code details
  | .resourceBusy code details => numbered code details
  | .noFileOrDirectory _ code details => numbered code details
  | .invalidArgument _ code details => numbered code details
  | .permissionDenied _ code details => numbered code details
  | .resourceExhausted _ code details => numbered code details
  | .inappropriateType _ code details => numbered code details
  | .noSuchThing _ code details => numbered code details
  | e => toString e

/-- Runs an action, and gives the reason if it fails. -/
def attempt {α : Type} (action : IO α) : IO (Except String α) :=
  try return .ok (← action) catch e => return .error (reasonOf e)

/-- The wall clock, in milliseconds since the start of 1970. -/
def wallClock : IO Nat := do
  return (← Std.Time.Timestamp.now).toMillisecondsSinceUnixEpoch.toInt.toNat

/-- Actions with a log, whose lines are printed as they are written. -/
abbrev Session := StateT Journal IO

/-- Why a file cannot be written, if it cannot.  It is opened without being changed. -/
def refusalOf (path : String) : IO (Option String) := do
  let existed ← try
      discard <| IO.FS.Handle.mk path .read
      pure true
    catch _ => pure false
  match ← attempt (IO.FS.Handle.mk path .append) with
  | .error reason => return some reason
  | .ok _ =>
    unless existed do IO.FS.removeFile path
    return none

instance : Host Session where
  read path := attempt do return (← IO.FS.readBinFile path).toList
  write path bytes := attempt (IO.FS.writeBinFile path bytes.toByteArray)
  remove path := discard <| attempt (IO.FS.removeFile path)
  refusal path := refusalOf path
  log level message := do
    let now ← wallClock
    let journal := { (← get) with clock := now }.write level message
    IO.eprint journal.text
    set { journal with text := "" }
  configure settings := modify (·.configure settings)

/-- The status of a process that ends in the given way. -/
def status : Exit → UInt32
  | .code n => n.toUInt32
  | .abort => 134

/-! ## The console -/

/-- Reads a line of bytes, with the line feed that ends it. -/
partial def readLine (input : IO.FS.Stream) (line : ByteArray) : IO ByteArray := do
  let byte ← input.read 1
  if byte.isEmpty then return line
  else if byte.toList = [10] then return line ++ byte
  else readLine input (line ++ byte)

/-- Reads lines up to the first that is not blank. -/
partial def readWords (input : IO.FS.Stream) (lines : List UInt8) : IO (List UInt8) := do
  let line := (← readLine input ByteArray.empty).toList
  match line, Text.ofBytes? line with
  | [], _ => return lines
  | _, none => return lines ++ line
  | _, some text =>
    if (Text.words text.toList).isEmpty then readWords input (lines ++ line)
    else return lines ++ line

/-- Whether the next instruction reads a number that is not there yet. -/
def awaitsInput (m : Machine) : Bool :=
  m.console.pending.isEmpty && m.console.input.isEmpty &&
    match m.program.decodeAt m.ip with
    | .ok d => d.opcode == .input
    | .error _ => false

/-- Prints what a machine has printed. -/
def flushOutput (m : Machine) : IO Machine := do
  if m.console.output.isEmpty then return m
  else
    let out ← IO.getStdout
    out.putStr m.console.output
    out.flush
    return { m with console := { m.console with output := "" } }

/-- Runs a machine on the console until it stops. -/
partial def drive (m : Machine) : IO (Machine.Outcome × Machine) := do
  if !m.isRunning then return (.finished, m)
  else
    let m ← if awaitsInput m then
        let input ← readWords (← IO.getStdin) []
        pure { m with console := { m.console with input } }
      else
        pure m
    match Machine.step m with
    | .ok _ m => drive (← flushOutput m)
    | .error i m => return (.interrupted i, ← flushOutput m)

/-- The processor tool on the console. -/
def process (lookup : String → Option String) (args : List String) : Session Exit := do
  match ← ProcessorTool.prepare "proc" lookup args (Console.ofInput []) with
  | .error exit => return exit
  | .ok job =>
    let (outcome, m) ← drive job.machine.noteStart
    let exit ← ProcessorTool.conclude job.input outcome (Machine.noteEnd outcome m)
    return exit.getD .failure

/-! ## The clock -/

/-- Repeats some work until the time to measure for has passed. -/
partial def repeatWork (start : Nat) (work : Nat → IO Unit) (iterations : Nat) : IO Nat := do
  if (← IO.monoNanosNow) - start < Benchmark.minDuration then
    work iterations
    repeatWork start work (iterations + 1)
  else
    return iterations

/-- Measures some work. -/
def measure (subject : String × Option Nat) (work : Nat → IO Unit) :
    IO Benchmark.Measurement := do
  (List.range 5).forM work
  let start ← IO.monoNanosNow
  let iterations ← repeatWork start work 0
  return ⟨subject.1, iterations, (← IO.monoNanosNow) - start, subject.2⟩

/-- Fails unless some work succeeds.  The number keeps the work from being shared between
repetitions. -/
def expect {ε α : Type} (what : String) (n : Nat) (work : Nat → Except ε α) : IO α :=
  match work n with
  | .ok a => return a
  | .error _ => throw (IO.userError what)

/-- Runs a program without input. -/
def execute (p : Program) (n : Nat) : Except Unit Unit :=
  let canvas := Canvas.blank Settings.default.bitmapPath none
  match Machine.load p (Settings.default.stackCapacity + 0 * n) (Console.ofInput []) canvas with
  | .error _ => .error ()
  | .ok m =>
    match m.run 1000000000 with
    | (.finished, _) => .ok ()
    | _ => .error ()

/-- The benchmark tool on the real clock. -/
def benchmark : IO Unit := do
  let out ← IO.getStdout
  let print (line : String) : IO Unit := do
    out.putStrLn line
    out.flush
  Benchmark.heading.forM print
  let assembleAll (n : Nat) : IO (List Program) :=
    Benchmark.samples.mapM fun s => expect "asm" n fun n =>
      Assembly.assemble (s.source ++ String.ofList (List.replicate (0 * n) ' '))
  let programs ← assembleAll 0
  for (subject, i) in Benchmark.subjects.zipIdx do
    let work (n : Nat) : IO Unit :=
      if i = 0 then discard <| assembleAll n
      else if i = 1 then programs.forM fun p => expect "verify" n fun _ => p.verify
      else (programs[i - 2]?).forM fun p => expect "run" n (execute p)
    print (← measure subject work).row
  print ""

/-! ## Tools -/

/-- The values of the environment variables the tools look at. -/
def environment : IO (String → Option String) := do
  let keys := ["DKVM_LOG", "DKVM_LOG_TIMESTAMP", "DKVM_STACK_CAPACITY", "DKVM_BITMAP_PATH",
    "TERM", "NO_COLOR"]
  let values ← keys.mapM fun key => do return (key, ← IO.getEnv key)
  return fun key => (values.lookup key).join

/-- Runs the tool with the given name. -/
def dispatch (tool : String) (args : List String) : IO UInt32 := do
  let lookup ← environment
  let journal := (Journal.empty (Journal.wantsColors lookup) 0).setTool tool
  let finish (session : Session Exit) : IO UInt32 := do
    return status (← session.run journal).1
  match tool with
  | "asm" => finish (AssemblerTool.run tool lookup args)
  | "dasm" => finish (ListerTool.run tool lookup args)
  | "proc" => finish (process lookup args)
  | "bench" => do
    benchmark
    return 0
  | _ => do
    IO.eprintln "the first argument names a tool: asm, dasm, proc or bench"
    return 2

end StackMachine.CommandLine

/-- Runs the tool that the first argument names. -/
def main (args : List String) : IO UInt32 :=
  match args with
  | tool :: rest => StackMachine.CommandLine.dispatch tool rest
  | [] => StackMachine.CommandLine.dispatch "" []
