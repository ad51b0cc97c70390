import StackMachine.Assembly.Routine
import StackMachine.Operand.Notation
import StackMachine.Program.Verify

/-!
# Assembly

With the layout and the functions of a source text known, each line gives one
instruction: its operand tokens are read according to the kinds of its operands, and
names are replaced by offsets.

Main definitions:

- `Scope`, what the names of a source text stand for;
- `resolve`, the doubles an operand token stands for;
- `assemble`, the program of a source text.
-/

namespace StackMachine.Assembly

/-- What the names of a source text stand for. -/
structure Scope where
  labels : List (String × Nat)
  functions : List (String × Extent)
  /-- The number of bytes of the program. -/
  length : Nat

/-- Reads a natural number.  It is written as any numeral with such a value. -/
def parseCount (token : String) : Except SourceError Nat :=
  match (Double.ofText? token).bind Double.index? with
  | some n => .ok n
  | none => .error (.invalidCount token)

/-- Reads the operand of a push or a pop.  A pop may go without, and then discards its
value; it takes no immediate. -/
def resolveStackOperand (op : Opcode) : Option String → Except SourceError Operand
  | none => .ok (.imm Double.zero)
  | some token => do
    match ← Operand.parse token with
    | .imm v => if op = .pop then throw (.unsupportedOperand op.mnemonic token) else return .imm v
    | operand => return operand

/-- The offset of the label a jump refers to. -/
def Scope.resolveLabel (s : Scope) (token : String) : Except SourceError Nat :=
  match labelOf? token with
  | none => .error (.expectedLabel token)
  | some name =>
    match s.labels.lookup name with
    | none => .error (.undefinedLabel name)
    | some target => if target < s.length then .ok target else .error (.danglingLabel name)

/-- The extent of the function a token refers to. -/
def Scope.resolveFunction (s : Scope) (token : String) : Except SourceError Extent :=
  match s.functions.lookup (functionOf token) with
  | none => .error (.undefinedFunction (functionOf token))
  | some extent => .ok extent

/-- The doubles of an operand of the given kind, as the token says. -/
def Scope.resolve (s : Scope) (l : SourceLine) (kind : OperandKind) (token : Option String) :
    Except Error (List Double) :=
  let text := token.getD ""
  match kind with
  | .mode => do
    let (mode, value) := (← (resolveStackOperand l.opcode token).mapError .source).encode
    return [mode, value]
  | .location => .ok []
  | .target => do
    return [Double.ofNat (← (s.resolveLabel text).mapError .source)]
  | .function => do
    return [Double.ofNat (← (s.resolveFunction text).mapError .source).entry]
  | .bodyEnd => do
    return [Double.ofNat (← (s.resolveFunction text).mapError .source).finish]
  | .count | .slot => do
    return [Double.ofNat (← (parseCount text).mapError .source)]
  | .length => do
    let n ← (parseCount text).mapError .source
    if n < ramSize then return [Double.ofNat n]
    else throw (.code (.ramIndexOutOfBounds l.opcode.mnemonic l.offset (Double.ofNat n) ramSize))
  | .frameSize => do
    let n ← (parseCount text).mapError .source
    if n ≤ maxFrameSlots then return [Double.ofNat n]
    else throw (.source (.frameTooLarge text maxFrameSlots))

/-- The doubles of the operands of the given kinds, one token for each kind.  A fault is
at its token, or at the instruction's name if there is none. -/
def Scope.resolveAll (s : Scope) (l : SourceLine) :
    List OperandKind → List Token → Except Fault (List Double)
  | [], _ => .ok []
  | kind :: kinds, tokens => do
    let column := (tokens.head?.map Token.column).getD l.column
    let values ← (s.resolve l kind (tokens.head?.map Token.text)).mapError
      fun cause => ⟨l.number, column, cause⟩
    let rest ← s.resolveAll l kinds tokens.tail
    return values ++ rest

/-- Whether a line has the number of operand tokens its instruction takes. -/
def SourceLine.hasArity (l : SourceLine) : Bool :=
  l.operands.length == l.opcode.tokenCount || (l.opcode == .pop && l.operands.isEmpty)

/-- The instruction of a line. -/
def Scope.emit (s : Scope) (l : SourceLine) : Except Fault Instruction := do
  if l.hasArity then
    let kinds := l.opcode.operands.filter OperandKind.hasToken
    return ⟨l.opcode, ← s.resolveAll l kinds l.operands⟩
  else
    let column := (l.operands[l.opcode.tokenCount]?.map Token.column).getD l.column
    throw ⟨l.number, column, .source
      (.arityMismatch l.opcode.mnemonic l.opcode.tokenCount l.operands.length)⟩

/-- The instructions of a source text. -/
def instructions (source : String) : Except Fault (List Instruction) := do
  let layout ← layout source
  let functions ← layout.routines
  layout.lines.mapM (Scope.emit ⟨layout.labels, functions, layout.length⟩)

/-- The program of a source text. -/
def assemble (source : String) : Except Fault Program := do
  return Program.ofCode ((← instructions source).flatMap Instruction.encode)

end StackMachine.Assembly
