import StackMachine.Double.Nearest
import StackMachine.Error

/-!
# Stack operands

What a push reads and a pop writes: an immediate, a register, or a memory cell whose
address is a displacement, from a register if one is named.  In the stream an operand is
a pair of doubles.  The first selects its form; the second is the immediate itself, the
number of the register, or both parts of an address packed into one number.

Main definitions:

- `Register`, `Operand`;
- `Operand.encode` and `Operand.decode`, the pair of doubles in the stream.
-/

namespace StackMachine

/-- The number of memory cells. -/
def ramSize : Nat := 10000

/-- The registers. -/
inductive Register where
  | rax | rbx | rcx | rdx
deriving DecidableEq

namespace Register

/-- All registers, by number. -/
def all : List Register := [rax, rbx, rcx, rdx]

/-- The name of a register in source text. -/
def name : Register → String
  | rax => "rax"
  | rbx => "rbx"
  | rcx => "rcx"
  | rdx => "rdx"

/-- The number of a register. -/
def index : Register → Nat
  | rax => 0
  | rbx => 1
  | rcx => 2
  | rdx => 3

/-- The register with the given number. -/
def ofIndex? (n : Nat) : Option Register := all[n]?

/-- The register with the given name. -/
def ofName? (name : String) : Option Register := all.find? (·.name == name)

end Register

/-- The forms of a stack operand. -/
inductive Selector where
  | immediate | register | memory
deriving DecidableEq

namespace Selector

/-- The form a double selects. -/
def ofDouble? (v : Double) : Option Selector :=
  match v.index? with
  | some 0 => some immediate
  | some 1 => some register
  | some 2 => some memory
  | _ => none

/-- The double that selects a form. -/
def toDouble : Selector → Double
  | immediate => Double.ofNat 0
  | register => Double.ofNat 1
  | memory => Double.ofNat 2

end Selector

/-- A stack operand. -/
inductive Operand where
  | imm (value : Double)
  | reg (register : Register)
  | mem (base : Option Register) (displacement : Fin ramSize)
deriving DecidableEq

namespace Operand

/-- How many ways there are to choose the base of an address: a register, or none. -/
def stride : Nat := Register.all.length + 1

/-- The number of a base within an address: zero for none. -/
def baseCode : Option Register → Nat
  | none => 0
  | some r => r.index + 1

/-- The base with the given number. -/
def baseOfCode (n : Nat) : Option Register :=
  if n = 0 then none else Register.ofIndex? (n - 1)

/-- The pair of doubles of an operand. -/
def encode : Operand → Double × Double
  | imm value => (Selector.immediate.toDouble, value)
  | reg r => (Selector.register.toDouble, Double.ofNat r.index)
  | mem base displacement =>
    (Selector.memory.toDouble, Double.ofNat (baseCode base + displacement * stride))

/-- The operand a pair of doubles stands for, in an instruction of the given name and
offset. -/
def decode (instruction : String) (offset : Nat) (mode value : Double) :
    Except CodeError Operand :=
  match Selector.ofDouble? mode with
  | none => .error (.invalidSelector instruction offset mode)
  | some .immediate => .ok (imm value)
  | some .register =>
    match value.index?.bind Register.ofIndex? with
    | none => .error (.invalidRegister instruction offset value)
    | some r => .ok (reg r)
  | some .memory =>
    match value.index? with
    | none => .error (.notAnInteger instruction offset value)
    | some code =>
      if h : code / stride < ramSize then
        .ok (mem (baseOfCode (code % stride)) ⟨code / stride, h⟩)
      else
        .error (.ramIndexOutOfBounds instruction offset (Double.ofNat (code / stride)) ramSize)

end Operand

end StackMachine
