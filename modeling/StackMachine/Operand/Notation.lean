import StackMachine.Decimal.Numeral
import StackMachine.Operand.Basic
import StackMachine.Text.Split

/-!
# Stack operands in source text

A register is written by its name and an immediate as a numeral.  A memory cell is
written in brackets: a register, a register plus a displacement, or a displacement
alone.  Blanks may stand before every part and after the closing bracket.
-/

namespace StackMachine.Operand

/-! ## Reading -/

/-- Reads the given character, after any blanks. -/
def readChar? (c : Char) (text : List Char) : Option (List Char) :=
  match Text.trimLeft text with
  | [] => none
  | d :: rest => if d = c then some rest else none

/-- Reads the name of a register, after any blanks. -/
def readRegister? (text : List Char) : Option (Register × List Char) :=
  match Text.trimLeft text with
  | a :: b :: c :: rest => (Register.ofName? (String.ofList [a, b, c])).map (·, rest)
  | _ => none

/-- The number of values of a machine word of 64 bits. -/
def wordValues : Nat := 0x10000000000000000

/-- Reads one or more digits, after any blanks.  Their value fits a machine word. -/
def readNatural? (text : List Char) : Option (Nat × List Char) :=
  let text := Text.trimLeft text
  let digits := text.takeWhile Char.isDigit
  let value := Nat.ofDigitChars 10 digits 0
  if digits.isEmpty || wordValues ≤ value then none
  else some (value, text.dropWhile Char.isDigit)

/-- Reads a displacement after a register, if a plus sign announces one. -/
def readOffset? (text : List Char) : Option (Nat × List Char) :=
  match readChar? '+' text with
  | some rest => readNatural? rest
  | none => some (0, text)

/-- Reads a register, an optional displacement and the closing bracket. -/
def readBased? (text : List Char) : Option ((Option Register × Nat) × List Char) := do
  let (r, rest) ← readRegister? text
  let (displacement, rest) ← readOffset? rest
  let rest ← readChar? ']' rest
  return ((some r, displacement), rest)

/-- Reads a displacement and the closing bracket. -/
def readPlain? (text : List Char) : Option ((Option Register × Nat) × List Char) := do
  let (displacement, rest) ← readNatural? text
  let rest ← readChar? ']' rest
  return ((none, displacement), rest)

/-- Reads a base and a displacement in brackets, and nothing after them but blanks. -/
def readAddress? (text : List Char) : Option (Option Register × Nat) := do
  let inside ← readChar? '[' text
  let (address, rest) ← (readBased? inside).or (readPlain? inside)
  if (Text.trimLeft rest).isEmpty then some address else none

/-- Reads a memory operand. -/
def parseMemory (token : String) : Except SourceError Operand :=
  match readAddress? token.toList with
  | none => .error (.invalidMemoryOperand token)
  | some (base, displacement) =>
    if h : displacement < ramSize then .ok (mem base ⟨displacement, h⟩)
    else .error (.invalidMemoryOperand
      s!"{token} (displacement {displacement} is outside RAM of {ramSize} cells)")

/-- Reads a stack operand.  A token of three bytes that starts like the name of a
register is taken for one. -/
def parse (token : String) : Except SourceError Operand :=
  match Register.ofName? token with
  | some r => .ok (reg r)
  | none =>
    if token.toList.head? = some '[' then parseMemory token
    else if token.toList.head? = some 'r' ∧ token.utf8ByteSize = 3 then
      .error (.invalidRegister token)
    else
      match Double.ofText? token with
      | some value => .ok (imm value)
      | none => .error (.invalidNumber token)

/-! ## Writing -/

/-- The text of an operand in source syntax. -/
def toText : Operand → String
  | imm value => value.toText
  | reg r => r.name
  | mem none displacement => s!"[{displacement.val}]"
  | mem (some r) displacement =>
    if displacement.val = 0 then s!"[{r.name}]" else s!"[{r.name}+{displacement.val}]"

end StackMachine.Operand
