import StackMachine.Operand.Notation
import StackMachine.Program.Basic

/-!
# Listings

A listing is source text for a program.  Jump targets become labels named after their
offsets, placed before the instructions they lead to, and functions are named after the
offsets of their headers.
-/

namespace StackMachine

/-- The greatest offset that a machine word holds. -/
def maxOffset : Nat := 0xffffffffffffffff

/-- The name of the label at an offset. -/
def labelName (offset : Nat) : String := s!"L{offset}"

/-- The name of the function whose header is at an offset. -/
def functionName (offset : Nat) : String := s!"fn_{offset}"

namespace Placed

/-- The offsets an instruction may jump to. -/
def targets (d : Placed) : List Nat :=
  (d.opcode.operands.zip d.operands).filterMap fun (kind, value) =>
    if kind = .target then some (value.truncate maxOffset) else none

/-- The words a listing shows for one operand.  A pop that discards its value shows
none. -/
def renderOperand (d : Placed) (kind : OperandKind) (n : Nat) :
    Except CodeError (List String) :=
  let value := d.operand n
  match kind with
  | .location => .ok []
  | .mode => do
    match ← Operand.decode d.opcode.mnemonic d.offset value (d.operand (n + 1)) with
    | .imm v => return if d.opcode = .pop then [] else [v.toText]
    | operand => return [operand.toText]
  | .target => .ok [":" ++ labelName (value.truncate maxOffset)]
  | .function => .ok [functionName (value.truncate maxOffset)]
  | .bodyEnd => .ok [functionName d.offset]
  | .count | .frameSize | .length | .slot => .ok [value.toText]

/-- The source line of an instruction. -/
def render (d : Placed) : Except CodeError String := do
  let words ← d.opcode.operands.zipIdx.mapM fun (kind, n) => d.renderOperand kind n
  return " ".intercalate (d.opcode.mnemonic :: words.flatten)

end Placed

namespace Program

/-- The lines of a listing for one instruction: its label, if it is jumped to, and its
source line. -/
def listInstruction (targets : List Nat) (d : Placed) : Except CodeError String := do
  let label := if targets.contains d.offset then s!":{labelName d.offset}\n" else ""
  let line ← d.render
  return label ++ line ++ "\n"

/-- The listing of a program. -/
def listing (p : Program) : Except CodeError String := do
  let placed ← p.decode
  let targets := placed.flatMap Placed.targets
  let lines ← placed.mapM (listInstruction targets)
  return String.join lines

end Program

end StackMachine
