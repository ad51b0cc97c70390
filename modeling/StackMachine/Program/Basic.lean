import StackMachine.Error
import StackMachine.Opcode
import StackMachine.Text.Utf8

/-!
# Programs

A program is an artifact: the signature followed by the instruction stream.  Offsets
count from the start of the artifact, so the first instruction is at `codeStart`.

Main definitions:

- `Instruction`, `Instruction.encode`;
- `Program`, `Program.ofCode`, `Program.ofBytes`;
- `Program.decodeAt`, the instruction at an offset;
- `Program.decodeFrom`, the instructions one after the other, up to the first error.
-/

namespace StackMachine

/-- An instruction with the doubles that are its operands. -/
structure Instruction where
  opcode : Opcode
  operands : List Double
deriving DecidableEq

namespace Instruction

/-- The operand with the given number. -/
def operand (i : Instruction) (n : Nat) : Double := i.operands.getD n Double.zero

/-- The bytes of an instruction. -/
def encode (i : Instruction) : List UInt8 :=
  i.opcode.toByte :: i.operands.flatMap Double.toBytes

end Instruction

/-- An instruction at its offset in a program. -/
structure Placed extends Instruction where
  offset : Nat
deriving DecidableEq

/-- The offset just past an instruction. -/
def Placed.next (d : Placed) : Nat := d.offset + d.opcode.size

/-- The bytes every program starts with. -/
def signature : List UInt8 := [0x44, 0x4b, 0x32, 0x34, 0x6f, 0x35]

/-- The offset of the first instruction. -/
def codeStart : Nat := signature.length

/-- An artifact: the signature and the instruction stream. -/
structure Program where
  bytes : Array UInt8
  signed : bytes.toList.take codeStart = signature
deriving DecidableEq

namespace Program

/-- The program with the given instruction stream. -/
def ofCode (code : List UInt8) : Program := ⟨(signature ++ code).toArray, rfl⟩

/-- The program with the given bytes, if they start with the signature. -/
def ofBytes (bytes : List UInt8) : Except HostError Program :=
  if h : bytes.take codeStart = signature then .ok ⟨bytes.toArray, h⟩
  else .error (.badSignature (String.ofList (Text.ofBytesLossy signature))
    (String.ofList (Text.ofBytesLossy (bytes.take codeStart))))

/-- The number of bytes of the artifact. -/
def size (p : Program) : Nat := p.bytes.size

/-- The instruction stream. -/
def code (p : Program) : List UInt8 := p.bytes.toList.drop codeStart

/-- Whether the program has no instructions. -/
def isEmpty (p : Program) : Bool := p.size == codeStart

/-- The double whose eight bytes start at an offset inside the program. -/
def doubleAt (p : Program) (offset : Nat) : Double :=
  Double.ofBytes (p.bytes.extract offset (offset + Double.width)).toList

/-- The double whose eight bytes start at an offset, if the program has all of them. -/
def doubleAt? (p : Program) (offset : Nat) : Option Double :=
  if offset + Double.width ≤ p.size then some (p.doubleAt offset) else none

/-- The operands of an instruction at an offset inside the program. -/
def operandsAt (p : Program) (offset : Nat) (op : Opcode) : List Double :=
  (List.range op.arity).map fun i => p.doubleAt (offset + 1 + Double.width * i)

/-- The instruction at an offset. -/
def decodeAt (p : Program) (offset : Nat) : Except CodeError Placed :=
  match p.bytes[offset]? with
  | none => .error (.outsideProgram offset)
  | some byte =>
    match Opcode.ofByte? byte with
    | none => .error (.invalidInstruction byte offset)
    | some op =>
      let available := p.size - offset
      if available < op.size then
        .error (.truncated op.mnemonic offset op.size available)
      else
        .ok ⟨⟨op, p.operandsAt offset op⟩, offset⟩

/-- The instructions from an offset to the end of the program, or up to the first that
cannot be decoded, and why it cannot. -/
def decodeFrom (p : Program) (offset : Nat) : List Placed × Option CodeError :=
  if offset < p.size then
    match p.decodeAt offset with
    | .error e => ([], some e)
    | .ok d =>
      let (ds, e) := p.decodeFrom (offset + d.opcode.size)
      (d :: ds, e)
  else
    ([], none)
termination_by p.size - offset
decreasing_by
  have : 0 < d.opcode.size := by unfold Opcode.size; omega
  omega

/-- All instructions of a program. -/
def decode (p : Program) : Except CodeError (List Placed) :=
  match p.decodeFrom codeStart with
  | (ds, none) => .ok ds
  | (_, some e) => .error e

end Program

end StackMachine
