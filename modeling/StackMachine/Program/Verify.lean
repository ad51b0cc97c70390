import StackMachine.Operand.Basic
import StackMachine.Program.Basic

/-!
# Verification

A program may run once its stream decodes and every operand is in range for its kind:
jumps lead to instructions, calls to function headers, function ends to an instruction
or the end of the program, and the numbers are natural and within their limits.  The
first violation in the order of the stream is reported; an error of decoding comes
before all others.
-/

namespace StackMachine

/-- The greatest number of arguments, and of locals, a function may declare. -/
def maxFrameSlots : Nat := 4096

/-- Where the instructions of a program are. -/
structure CodeMap where
  /-- The number of bytes of the program. -/
  length : Nat
  /-- The instructions, in order. -/
  placed : List Placed

namespace CodeMap

/-- Whether an instruction starts at the offset. -/
def isBoundary (m : CodeMap) (offset : Nat) : Bool := m.placed.any (·.offset == offset)

/-- Whether a function header starts at the offset. -/
def isHeader (m : CodeMap) (offset : Nat) : Bool :=
  m.placed.any fun d => d.offset == offset && d.opcode.isHeader

/-- The natural number an operand must be. -/
def checkNatural (d : Placed) (value : Double) : Except CodeError Nat :=
  match value.index? with
  | some n => .ok n
  | none => .error (.notAnInteger d.opcode.mnemonic d.offset value)

/-- The offset an operand must be: not before the code, and before `bound`. -/
def checkOffset (m : CodeMap) (d : Placed) (value : Double) (bound : Nat) :
    Except CodeError Nat :=
  match value.index? with
  | some target =>
    if codeStart ≤ target ∧ target < bound then .ok target
    else .error (.invalidTarget d.opcode.mnemonic d.offset value m.length)
  | none => .error (.invalidTarget d.opcode.mnemonic d.offset value m.length)

/-- Checks one operand, of the given kind and number. -/
def checkOperand (m : CodeMap) (d : Placed) (kind : OperandKind) (n : Nat) :
    Except CodeError Unit := do
  let value := d.operand n
  match kind with
  | .location => return ()
  | .mode => discard <| Operand.decode d.opcode.mnemonic d.offset value (d.operand (n + 1))
  | .target =>
    let target ← m.checkOffset d value m.length
    if m.isBoundary target then return ()
    else throw (.misalignedTarget d.opcode.mnemonic d.offset target)
  | .function =>
    let target ← m.checkOffset d value m.length
    if m.isHeader target then return ()
    else throw (.notAFunction d.offset target)
  | .bodyEnd =>
    let target ← m.checkOffset d value (m.length + 1)
    if d.offset < target ∧ (target = m.length ∨ m.isBoundary target) then return ()
    else throw (.misalignedTarget d.opcode.mnemonic d.offset target)
  | .count | .slot => discard <| checkNatural d value
  | .frameSize =>
    let n ← checkNatural d value
    if n ≤ maxFrameSlots then return ()
    else throw (.frameSizeOutOfRange d.opcode.mnemonic d.offset value maxFrameSlots)
  | .length =>
    let n ← checkNatural d value
    if n < ramSize then return ()
    else throw (.ramIndexOutOfBounds d.opcode.mnemonic d.offset value ramSize)

/-- Checks the operands of one instruction, in order. -/
def checkInstruction (m : CodeMap) (d : Placed) : Except CodeError Unit :=
  d.opcode.operands.zipIdx.forM fun (kind, n) => m.checkOperand d kind n

end CodeMap

/-- Checks that a program may run. -/
def Program.verify (p : Program) : Except CodeError Unit := do
  let placed ← p.decode
  placed.forM (CodeMap.checkInstruction ⟨p.size, placed⟩)

end StackMachine
