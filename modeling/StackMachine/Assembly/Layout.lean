import StackMachine.Assembly.Fault
import StackMachine.Assembly.Token
import StackMachine.Program.Basic

/-!
# Layout of a source text

The first thing an assembly settles is where everything is: the offset of each
instruction line, which follows from the sizes of the instructions before it, and the
offset each label stands for, which is that of the next instruction.

Main definitions:

- `Statement`, what one line says;
- `readLine`, the statement of a line;
- `Layout`, the instruction lines with their offsets, and the labels;
- `layout`, the layout of a source text.
-/

namespace StackMachine.Assembly

/-- What a line says. -/
inductive Statement where
  /-- Nothing. -/
  | blank
  /-- That a label stands for the next instruction. -/
  | label (name : String) (column : Nat)
  /-- An instruction, the column of its name, and its operand tokens. -/
  | instruction (opcode : Opcode) (column : Nat) (operands : List Token)
deriving DecidableEq

/-- The name after the colon that marks labels, if the token starts with one. -/
def labelOf? (token : String) : Option String :=
  match token.toList with
  | ':' :: name => some (String.ofList name)
  | _ => none

/-- The name of the function a token refers to, with or without a colon. -/
def functionOf (token : String) : String := (labelOf? token).getD token

/-- The statement of a line. -/
def readLine (number : Nat) (line : List Char) : Except Fault Statement :=
  match tokenize line with
  | .error column => .error ⟨number, column, .source .unterminatedBracket⟩
  | .ok [] => .ok .blank
  | .ok (first :: operands) =>
    match labelOf? first.text with
    | some name =>
      if name = "" ∨ operands ≠ [] then
        .error ⟨number, (operands.head?.getD first).column,
          .source (.malformedLabel (String.ofList (Text.trim line)))⟩
      else
        .ok (.label name first.column)
    | none =>
      match Opcode.ofMnemonic? first.text with
      | some op => .ok (.instruction op first.column operands)
      | none => .error ⟨number, first.column, .source (.invalidMnemonic first.text)⟩

/-- An instruction line. -/
structure SourceLine where
  /-- The number of the line, from one. -/
  number : Nat
  /-- The offset of the instruction. -/
  offset : Nat
  opcode : Opcode
  /-- The column of the instruction's name. -/
  column : Nat
  operands : List Token
deriving DecidableEq

/-- The offset just past the instruction of a line. -/
def SourceLine.next (l : SourceLine) : Nat := l.offset + l.opcode.size

/-- Where the parts of a source text are. -/
structure Layout where
  /-- The labels and their offsets, the last one first. -/
  labels : List (String × Nat)
  /-- The instruction lines, in order. -/
  lines : List SourceLine
  /-- The number of bytes of the program. -/
  length : Nat

/-- Lays out numbered lines, after the given labels and from the given offset on. -/
def collect (labels : List (String × Nat)) (offset : Nat) :
    List (List Char × Nat) → Except Fault Layout
  | [] => .ok ⟨labels, [], offset⟩
  | (line, number) :: rest => do
    match ← readLine number line with
    | .blank => collect labels offset rest
    | .label name column =>
      if (labels.lookup name).isSome then
        .error ⟨number, column, .source (.duplicateLabel name)⟩
      else
        collect ((name, offset) :: labels) offset rest
    | .instruction op column operands =>
      let layout ← collect labels (offset + op.size) rest
      return { layout with
        lines := ⟨number, offset, op, column, operands⟩ :: layout.lines }

/-- Lays out a source text. -/
def layout (source : String) : Except Fault Layout :=
  collect [] codeStart ((Text.lines source.toList).zipIdx 1)

end StackMachine.Assembly
