/-!
# The instruction set

An instruction is one opcode byte followed by its operands, one little-endian double
each.  `Opcode.all` lists the opcodes in the order of their bytes, and
`Opcode.operands` gives the kinds of their operands; the assembler, the verifier and the
lister all work from these two tables.

Main definitions:

- `OperandKind`, what an operand stands for;
- `Opcode`, the instructions, with arithmetic and conditional jumps as families;
- `Opcode.toByte`, `Opcode.ofByte?`, `Opcode.mnemonic`, `Opcode.ofMnemonic?`;
- `Opcode.size`, the bytes an instruction takes.
-/

namespace StackMachine

/-- What an operand of an instruction stands for. -/
inductive OperandKind where
  /-- The addressing mode of a stack operand. -/
  | mode
  /-- The value of a stack operand, which the mode gives a meaning. -/
  | location
  /-- The offset of an instruction to jump to. -/
  | target
  /-- The offset of a function header to call. -/
  | function
  /-- The offset just past the body of a function. -/
  | bodyEnd
  /-- A natural number. -/
  | count
  /-- A number of arguments or locals. -/
  | frameSize
  /-- A number of memory cells. -/
  | length
  /-- The number of a local or an argument. -/
  | slot
deriving DecidableEq

/-- Whether source text writes the operand as a token of its own.  The token of a mode
gives the location as well. -/
def OperandKind.hasToken : OperandKind → Bool
  | .location => false
  | _ => true

/-- The operations that take two values from the stack and leave one. -/
inductive BinaryOp where
  | add | sub | mul | div | mod | pow
deriving DecidableEq

/-- The operations that replace the value on top of the stack. -/
inductive UnaryOp where
  | inc | dec | sqrt | sqr | sin | cos | tan | arcsin | arccos | arctan
  | sinh | cosh | tanh | ln | exp
deriving DecidableEq

/-- The conditions of the jumps that compare the two values on top of the stack. -/
inductive Condition where
  | above | aboveOrEqual | below | belowOrEqual | equal | notEqual
deriving DecidableEq

/-- The instructions. -/
inductive Opcode where
  /-- Stops the machine. -/
  | stop
  /-- Pushes an immediate, a register or a memory cell. -/
  | push
  /-- Pops into a register, a memory cell or nowhere. -/
  | pop
  /-- Replaces two values by the result of an operation. -/
  | binary (op : BinaryOp)
  /-- Pushes a number read from the console. -/
  | input
  /-- Pops a number and prints it. -/
  | output
  /-- Jumps. -/
  | jump
  /-- Jumps if the two top values compare as stated; they stay on the stack. -/
  | branch (condition : Condition)
  /-- Replaces the top value by the result of an operation. -/
  | unary (op : UnaryOp)
  /-- Calls a function. -/
  | call
  /-- Heads a function without arguments and locals. -/
  | func
  /-- Heads a function that declares arguments and locals. -/
  | framed
  /-- Ends a function, leaving its values on the stack. -/
  | endFunc
  /-- Returns the top value to the caller. -/
  | ret
  /-- Returns to the caller without a value. -/
  | leave
  /-- Pushes a local. -/
  | getLocal
  /-- Pops into a local. -/
  | setLocal
  /-- Pushes an argument. -/
  | getArg
  /-- Writes the first memory cells as a bitmap. -/
  | draw
deriving DecidableEq

/-- The source name of an operation on two values. -/
def BinaryOp.mnemonic : BinaryOp → String
  | .add => "ADD"
  | .sub => "SUB"
  | .mul => "MUL"
  | .div => "DIV"
  | .mod => "MOD"
  | .pow => "POW"

/-- The source name of an operation on one value. -/
def UnaryOp.mnemonic : UnaryOp → String
  | .inc => "INC"
  | .dec => "DEC"
  | .sqrt => "SQRT"
  | .sqr => "SQR"
  | .sin => "SIN"
  | .cos => "COS"
  | .tan => "TAN"
  | .arcsin => "ARCSIN"
  | .arccos => "ARCCOS"
  | .arctan => "ARCTAN"
  | .sinh => "SINH"
  | .cosh => "COSH"
  | .tanh => "TANH"
  | .ln => "LN"
  | .exp => "EXP"

/-- The source name of the jump under a condition. -/
def Condition.mnemonic : Condition → String
  | .above => "JA"
  | .aboveOrEqual => "JAE"
  | .below => "JB"
  | .belowOrEqual => "JBE"
  | .equal => "JE"
  | .notEqual => "JNE"

namespace Opcode

/-- The source name of an instruction. -/
def mnemonic : Opcode → String
  | stop => "END"
  | push => "PUSH"
  | pop => "POP"
  | binary op => op.mnemonic
  | input => "IN"
  | output => "OUT"
  | jump => "JMP"
  | branch condition => condition.mnemonic
  | unary op => op.mnemonic
  | call => "CALL"
  | func => "FUNC"
  | framed => "FD"
  | endFunc => "ENDFUNC"
  | ret => "RET"
  | leave => "LEAVE"
  | getLocal => "GET_LOCAL"
  | setLocal => "SET_LOCAL"
  | getArg => "GET_ARG"
  | draw => "DRAW"

/-- All instructions, in the order of their bytes. -/
def all : List Opcode :=
  [stop, push, pop,
   binary .add, binary .sub, binary .mul, binary .div, binary .mod, binary .pow,
   input, output,
   jump, branch .above, branch .aboveOrEqual, branch .below, branch .belowOrEqual,
   branch .equal, branch .notEqual,
   unary .inc, unary .dec, unary .sqrt, unary .sqr, unary .sin, unary .cos, unary .tan,
   unary .arcsin, unary .arccos, unary .arctan, unary .sinh, unary .cosh, unary .tanh,
   unary .ln, unary .exp,
   call, func, framed, endFunc, ret, leave, getLocal, setLocal, getArg, draw]

/-- The byte of an instruction: its place in `all`. -/
def toByte (op : Opcode) : UInt8 := (all.idxOf op).toUInt8

/-- The instruction with the given byte. -/
def ofByte? (byte : UInt8) : Option Opcode := all[byte.toNat]?

/-- The instruction with the given source name. -/
def ofMnemonic? (name : String) : Option Opcode := all.find? (·.mnemonic == name)

/-- The kinds of an instruction's operands, in the order of the stream. -/
def operands : Opcode → List OperandKind
  | push | pop => [.mode, .location]
  | jump | branch _ => [.target]
  | call => [.function]
  | func => [.bodyEnd]
  | framed => [.bodyEnd, .frameSize, .frameSize]
  | getLocal | setLocal | getArg => [.slot]
  | draw => [.count, .count, .length]
  | _ => []

/-- The number of operands in the stream. -/
def arity (op : Opcode) : Nat := op.operands.length

/-- The number of operand tokens in source text. -/
def tokenCount (op : Opcode) : Nat := (op.operands.filter OperandKind.hasToken).length

/-- The number of bytes of an instruction. -/
def size (op : Opcode) : Nat := 1 + 8 * op.arity

/-- Whether an instruction heads a function. -/
def isHeader : Opcode → Bool
  | func | framed => true
  | _ => false

/-! ## The two tables agree -/

theorem ofByte?_toByte (op : Opcode) : ofByte? op.toByte = some op := by
  cases op with
  | binary op | unary op | branch op => cases op <;> rfl
  | _ => rfl

theorem ofMnemonic?_mnemonic (op : Opcode) : ofMnemonic? op.mnemonic = some op := by
  cases op with
  | binary op | unary op | branch op => cases op <;> decide +kernel
  | _ => decide +kernel

end Opcode

end StackMachine
