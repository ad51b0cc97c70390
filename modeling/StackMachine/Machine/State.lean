import StackMachine.Machine.Bitmap
import StackMachine.Machine.Console
import StackMachine.Machine.Memory
import StackMachine.Program.Verify
import StackMachine.Stack.Frame

/-!
# The state of the machine

A machine holds a verified program, a value stack, the frames of the active calls,
registers, memory, and the console and the picture that its instructions reach.

Main definitions:

- `Canvas`, where pictures go;
- `Machine`, `Machine.load`;
- `Machine.dump`, the state in words.
-/

namespace StackMachine

/-- Where the machine writes its pictures: one file, which each picture replaces. -/
structure Canvas where
  path : String
  /-- Why the file cannot be written, if it cannot. -/
  refusal : Option String
  /-- The picture written last. -/
  picture : Option (List UInt8)
deriving DecidableEq

namespace Canvas

/-- A canvas that no picture has been written to. -/
def blank (path : String) (refusal : Option String) : Canvas := ⟨path, refusal, none⟩

/-- Writes a picture. -/
def write (c : Canvas) (picture : List UInt8) : Except HostError Canvas :=
  match c.refusal with
  | some reason => .error (.io s!"{c.path}: {reason}")
  | none => .ok { c with picture := some picture }

end Canvas

/-- The state of a machine. -/
structure Machine where
  program : Program
  /-- The offset of the next instruction. -/
  ip : Nat
  /-- The offset of the instruction executed last. -/
  current : Nat
  halted : Bool
  stack : GuardedStack Double
  frames : GuardedStack Frame
  registers : Registers
  ram : Ram
  console : Console
  canvas : Canvas
  /-- What there is to tell about the run, the latest first. -/
  notes : List String

namespace Machine

/-- The machine at the start of a program. -/
def start (program : Program) (capacity : Nat) (console : Console) (canvas : Canvas) :
    Machine where
  program
  ip := codeStart
  current := codeStart
  halted := false
  stack := .empty capacity
  frames := .empty capacity
  registers := .zero
  ram := .zero
  console
  canvas
  notes := []

/-- The machine at the start of a program that passes verification. -/
def load (program : Program) (capacity : Nat) (console : Console) (canvas : Canvas) :
    Except CodeError Machine := do
  program.verify
  return start program capacity console canvas

/-- Whether there is an instruction to execute. -/
def isRunning (m : Machine) : Bool := !m.halted && m.ip < m.program.size

/-! ## The state in words -/

/-- The number of values a dump shows. -/
def dumpDepth : Nat := 16

/-- The name of the instruction executed last. -/
def currentName (m : Machine) : String :=
  match m.program.bytes[m.current]?.bind Opcode.ofByte? with
  | some op => op.mnemonic
  | none => "?"

/-- The line of a dump for the value stack: the topmost values, bottom first. -/
def dumpStack (m : Machine) : String :=
  let values := m.stack.toList
  let hidden := values.length - dumpDepth
  let ellipsis := if hidden = 0 then "" else " ..."
  let shown := (values.drop hidden).map fun v => " " ++ v.toText
  s!"stack ({values.length} value(s)):{ellipsis}{String.join shown}\n"

/-- The line of a dump for a violated guard. -/
def dumpGuard (m : Machine) : String :=
  match m.stack.verify with
  | some fault => s!"stack guard: {fault.message}\n"
  | none => ""

/-- The line of a dump for a call at the given depth. -/
def dumpFrame (f : Frame) (depth : Nat) : String :=
  s!"  #{depth} return {f.returnAddress} base {f.base} args {f.argCount} locals {f.localCount}\n"

/-- The state in words: the instruction, the stacks, and the registers. -/
def dump (m : Machine) : String :=
  let frames := m.frames.toList.zipIdx.reverse.map fun (f, depth) => dumpFrame f depth
  s!"instruction: {m.currentName} at byte {m.current}\n" ++ m.dumpStack ++ m.dumpGuard ++
    s!"frames ({m.frames.size}):\n" ++ String.join frames ++
    s!"registers: {m.registers.toText}"

end Machine

end StackMachine
