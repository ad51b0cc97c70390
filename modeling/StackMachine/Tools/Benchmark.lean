import StackMachine.Assembly.Assemble
import StackMachine.Decimal.Fixed
import StackMachine.Double.Arithmetic
import StackMachine.Machine.Step

/-!
# The benchmark tool

Measures how long assembling, verifying and running some programs takes.  Each
measurement repeats its work until two seconds have passed on a clock.  The clock is
read once at the start, once before each repetition, and once at the end.

Main definitions:

- `Sample`, a program to measure;
- `Measurement`, `Measurement.row`, one line of the report;
- `ticking`, the measurement by a clock that advances by the same time at each reading;
- `report`, the lines of the report.
-/

namespace StackMachine.Benchmark

/-- A program to measure. -/
structure Sample where
  name : String
  source : String
  /-- The number of instructions one run executes. -/
  instructionCount : Nat

/-- A source text with the given lines. -/
def sourceOf (lines : List String) : String := String.join (lines.map ("\n" ++ ·)) ++ "\n"

/-- The programs to measure. -/
def samples : List Sample :=
  [⟨"tight_loop(100K)", sourceOf
    ["PUSH 100000", "POP rax", "PUSH 0", "PUSH 0", ":loop", "POP", "POP", "PUSH rax",
     "DEC", "POP rax", "PUSH rax", "PUSH 0", "JA :loop"], 4 + 100000 * 9⟩,
   ⟨"arithmetic_mix(10K)", sourceOf
    ["PUSH 10000", "POP rcx", "PUSH 0", "PUSH 0", ":loop", "POP", "POP", "PUSH rcx",
     "PUSH 3", "MUL", "PUSH 7", "ADD", "PUSH 2", "DIV", "SQRT", "SIN", "POP rdx",
     "PUSH rcx", "DEC", "POP rcx", "PUSH rcx", "PUSH 0", "JA :loop"], 4 + 10000 * 18⟩,
   ⟨"call_overhead(10K)", sourceOf
    ["PUSH 10000", "POP rax", "PUSH 0", "PUSH 0", ":loop", "POP", "POP", "PUSH rax",
     "CALL twice", "POP rbx", "PUSH rax", "DEC", "POP rax", "PUSH rax", "PUSH 0",
     "JA :loop", "END", "FD twice 1 1", "GET_ARG 0", "PUSH 2", "MUL", "SET_LOCAL 0",
     "GET_LOCAL 0", "RET", "ENDFUNC"], 4 + 10000 * 18⟩,
   ⟨"mem_load_store(5K)", sourceOf
    ["PUSH 5000", "POP rax", "PUSH 0", "PUSH 0", ":loop", "POP", "POP", "PUSH rax",
     "POP [rax]", "PUSH [rax]", "POP rbx", "PUSH rax", "DEC", "POP rax", "PUSH rax",
     "PUSH 0", "JA :loop"], 4 + 5000 * 12⟩]

/-- The time to measure for, in nanoseconds. -/
def minDuration : Nat := 2000000000

/-- The result of a measurement. -/
structure Measurement where
  name : String
  iterations : Nat
  /-- The time taken, in nanoseconds. -/
  total : Nat
  /-- The number of instructions of one repetition, if that is known. -/
  instructionCount : Option Nat

/-- A text with blanks in front, up to a width. -/
def alignRight (width : Nat) (text : String) : String :=
  String.ofList (text.toList.leftpad width ' ')

/-- A text with blanks behind, up to a width. -/
def alignLeft (width : Nat) (text : String) : String :=
  String.ofList (text.toList.rightpad width ' ')

namespace Measurement

/-- The time of one repetition, in nanoseconds. -/
def average (r : Measurement) : Nat := r.total / max r.iterations 1

/-- A quotient with a fixed number of places. -/
def quotient (places num den : Nat) : String :=
  ((Double.ofNat num).div (Double.ofNat den)).toFixed places

/-- The column for the time of one instruction. -/
def perInstruction (r : Measurement) : String :=
  match r.instructionCount.filter (0 < ·) with
  | some n => quotient 1 r.average n
  | none => "-"

/-- The line of a measurement. -/
def row (r : Measurement) : String :=
  s!"  {alignLeft 30 r.name} {alignRight 7 (toString r.iterations)} iters " ++
    s!"{alignRight 10 (quotient 3 r.average 1000)} us/iter  " ++
    s!"{alignRight 8 r.perInstruction} ns/instr"

end Measurement

/-- The lines above the measurements. -/
def heading : List String :=
  ["VM Benchmarks (each runs for >= 2s)", "",
   "  " ++ alignLeft 30 "benchmark" ++ " " ++ alignRight 7 "iters" ++ "       " ++
     alignRight 14 "avg time" ++ "  " ++ alignRight 10 "ns/instr",
   "  " ++ String.ofList (List.replicate 70 '-')]

/-- What is measured, with the number of instructions of one repetition. -/
def subjects : List (String × Option Nat) :=
  [("assemble(all)", none), ("verify(all)", none)] ++
    samples.map fun s => (s.name, some s.instructionCount)

/-- A measurement by a clock that advances by `tick` nanoseconds at each reading.  Work
is repeated as long as a reading is below the time to measure for; the last reading and
the one for the total come on top. -/
def ticking (tick : Nat) (subject : String × Option Nat) : Measurement :=
  let iterations := (minDuration - 1) / tick
  ⟨subject.1, iterations, (iterations + 2) * tick, subject.2⟩

/-- The lines of a report, the last one empty. -/
def report (measurements : List Measurement) : List String :=
  heading ++ measurements.map Measurement.row ++ [""]

/-- The report by a clock that advances by `tick` nanoseconds at each reading. -/
def tickingReport (tick : Nat) : List String := report (subjects.map (ticking tick))

end StackMachine.Benchmark
