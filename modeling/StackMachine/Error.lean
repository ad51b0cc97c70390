import StackMachine.Decimal.Shortest
import StackMachine.Text.Quoted

/-!
# Errors

What can go wrong, by where it does: in source text, in the instruction stream, while a
program runs, or with the files, texts and settings around it.  Each cause carries what
its message shows, and the wording stands in the `message` functions alone.

Main definitions:

- `SourceError`, `CodeError`, `RunError`, `HostError`, the causes;
- `Error`, any of them, or a source error with its place in the text;
- `Error.message`, `Error.offset?`, `Error.isFatal`.
-/

namespace StackMachine

/-- A fault of source text, without its place. -/
inductive SourceError where
  | invalidMnemonic (name : String)
  | arityMismatch (instruction : String) (expected actual : Nat)
  | duplicateLabel (name : String)
  | undefinedLabel (name : String)
  /-- No instruction follows the label. -/
  | danglingLabel (name : String)
  | expectedLabel (token : String)
  | malformedLabel (line : String)
  | duplicateFunction (name : String)
  | undefinedFunction (name : String)
  | nestedFunction (name : String)
  | unmatchedEndFunc
  | unterminatedFunction (name : String)
  | invalidRegister (token : String)
  | invalidNumber (token : String)
  | invalidCount (token : String)
  | frameTooLarge (count : String) (limit : Nat)
  | invalidMemoryOperand (token : String)
  | unsupportedOperand (instruction token : String)
  | unterminatedBracket
deriving DecidableEq

/-- A fault of the instruction stream, at the offset of an instruction. -/
inductive CodeError where
  | invalidInstruction (opcode : UInt8) (offset : Nat)
  | truncated (instruction : String) (offset expected available : Nat)
  | invalidSelector (instruction : String) (offset : Nat) (selector : Double)
  | invalidRegister (instruction : String) (offset : Nat) (index : Double)
  | ramIndexOutOfBounds (instruction : String) (offset : Nat) (index : Double) (size : Nat)
  | notAnInteger (instruction : String) (offset : Nat) (value : Double)
  | frameSizeOutOfRange (instruction : String) (offset : Nat) (count : Double) (limit : Nat)
  | invalidTarget (instruction : String) (offset : Nat) (target : Double) (length : Nat)
  | misalignedTarget (instruction : String) (offset target : Nat)
  | notAFunction (offset target : Nat)
  /-- No instruction is at the offset. -/
  | outsideProgram (offset : Nat)
deriving DecidableEq

/-- A fault of a running program, at the offset of the instruction that met it. -/
inductive RunError where
  | stackUnderflow (instruction : String) (offset : Nat)
  | noActiveFrame (instruction : String) (offset : Nat)
  | slotOutOfRange (instruction : String) (offset : Nat) (slot : Double) (available : Nat)
  | addressOutOfRange (instruction : String) (offset : Nat) (address : Double) (size : Nat)
deriving DecidableEq

/-- A fault of the surroundings: files, console, pictures and settings. -/
inductive HostError where
  | badSignature (expected found : String)
  /-- Bytes that should have been text. -/
  | notText (reason : String)
  | invalidInput (token : String)
  | endOfInput
  | invalidBitmap (reason : String)
  | io (reason : String)
  | invalidSetting (key value reason : String)
deriving DecidableEq

/-- Anything that can go wrong. -/
inductive Error where
  | source (cause : SourceError)
  | code (cause : CodeError)
  | run (cause : RunError)
  | host (cause : HostError)
  /-- A fault met while assembling, with its place and its message. -/
  | assembly (line column : Nat) (message : String)
deriving DecidableEq

/-- The text of a fault of source text. -/
def SourceError.message : SourceError → String
  | invalidMnemonic name => s!"invalid instruction name: {name}"
  | arityMismatch instruction expected actual =>
    s!"{instruction} expects {expected} operand(s), got {actual}"
  | duplicateLabel name => s!"duplicate label: {name}"
  | undefinedLabel name => s!"undefined label: {name}"
  | danglingLabel name => s!"label {name} does not precede any instruction"
  | expectedLabel token => s!"expected a label reference like :name, got {token}"
  | malformedLabel line => s!"malformed label definition: {line}"
  | duplicateFunction name => s!"duplicate function: {name}"
  | undefinedFunction name => s!"undefined function: {name}"
  | nestedFunction name => s!"function {name} declared inside another function"
  | unmatchedEndFunc => "ENDFUNC without a matching FUNC or FD"
  | unterminatedFunction name => s!"function {name} is missing its ENDFUNC"
  | invalidRegister token => s!"invalid register {token}"
  | invalidNumber token => s!"invalid number {token}"
  | invalidCount token => s!"expected a non-negative integer, got {token}"
  | frameTooLarge count limit => s!"frame size {count} exceeds the limit of {limit} slots"
  | invalidMemoryOperand token => s!"invalid memory operand {token}"
  | unsupportedOperand instruction token => s!"{instruction} cannot take operand {token}"
  | unterminatedBracket => "unterminated memory operand"

/-- A byte in hexadecimal, with two digits. -/
def hexByte (byte : UInt8) : String :=
  "0x" ++ String.ofList ((Nat.toDigits 16 byte.toNat).leftpad 2 '0')

namespace CodeError

/-- The offset a fault of the stream is at. -/
def offset : CodeError → Nat
  | invalidInstruction _ offset => offset
  | truncated _ offset _ _ => offset
  | invalidSelector _ offset _ => offset
  | invalidRegister _ offset _ => offset
  | ramIndexOutOfBounds _ offset _ _ => offset
  | notAnInteger _ offset _ => offset
  | frameSizeOutOfRange _ offset _ _ => offset
  | invalidTarget _ offset _ _ => offset
  | misalignedTarget _ offset _ => offset
  | notAFunction offset _ => offset
  | outsideProgram offset => offset

/-- The text of a fault of the stream. -/
def message : CodeError → String
  | invalidInstruction opcode offset =>
    s!"byte {offset}: invalid instruction {hexByte opcode}"
  | truncated instruction offset expected available =>
    s!"byte {offset}: {instruction} needs {expected} bytes, only {available} left"
  | invalidSelector instruction offset selector =>
    s!"byte {offset}: {instruction} has invalid addressing mode {selector.toText}"
  | invalidRegister instruction offset index =>
    s!"byte {offset}: {instruction} refers to register {index.toText}, which does not exist"
  | ramIndexOutOfBounds instruction offset index size =>
    s!"byte {offset}: {instruction} RAM index {index.toText} out of bounds (size {size})"
  | notAnInteger instruction offset value =>
    s!"byte {offset}: {instruction} expected a non-negative integer, got {value.toText}"
  | frameSizeOutOfRange instruction offset count limit =>
    s!"byte {offset}: {instruction} frame size {count.toText} exceeds the limit of {limit} slots"
  | invalidTarget instruction offset target length =>
    s!"byte {offset}: {instruction} target {target.toText} is outside the program (length {length})"
  | misalignedTarget instruction offset target =>
    s!"byte {offset}: {instruction} target {target} is not an instruction boundary"
  | notAFunction offset target =>
    s!"byte {offset}: CALL target {target} is not a function header"
  | outsideProgram offset => s!"invalid instruction pointer {offset}"

end CodeError

namespace RunError

/-- The offset of the instruction that met the fault. -/
def offset : RunError → Nat
  | stackUnderflow _ offset => offset
  | noActiveFrame _ offset => offset
  | slotOutOfRange _ offset _ _ => offset
  | addressOutOfRange _ offset _ _ => offset

/-- The text of a fault of a running program. -/
def message : RunError → String
  | stackUnderflow instruction offset =>
    s!"byte {offset}: {instruction} popped from an empty stack"
  | noActiveFrame instruction offset =>
    s!"byte {offset}: {instruction} executed outside a function call"
  | slotOutOfRange instruction offset slot available =>
    s!"byte {offset}: {instruction} slot {slot.toText} out of range ({available} available)"
  | addressOutOfRange instruction offset address size =>
    s!"byte {offset}: {instruction} address {address.toText} out of bounds (size {size})"

end RunError

/-- The text of a fault of the surroundings. -/
def HostError.message : HostError → String
  | badSignature expected found =>
    s!"bad signature: expected {Text.quoted expected}, found {Text.quoted found}"
  | notText reason => s!"decoding error: {reason}"
  | invalidInput token => s!"invalid input {Text.quoted token}: expected a number"
  | endOfInput => "unexpected end of input"
  | invalidBitmap reason => s!"cannot draw bitmap: {reason}"
  | io reason => s!"io error: {reason}"
  | invalidSetting key value reason =>
    s!"invalid value {Text.quoted value} for {key}: {reason}"

namespace Error

/-- The text of an error. -/
def message : Error → String
  | source cause => cause.message
  | code cause => cause.message
  | run cause => cause.message
  | host cause => cause.message
  | assembly line column message => s!"line {line}:{column}: {message}"

/-- The offset of the instruction an error is about, if it is about one. -/
def offset? : Error → Option Nat
  | code cause => some cause.offset
  | run cause => some cause.offset
  | _ => none

/-- Whether an error ends the process at once. -/
def isFatal : Error → Bool
  | run (.stackUnderflow _ _) => true
  | _ => false

end Error

end StackMachine
