import StackMachine.Error
import StackMachine.Text.Split

/-!
# Faults of source text

An assembly that fails names the line and the column of the token at fault.  The
diagnostic shows that line with a mark under the column.
-/

namespace StackMachine

namespace Assembly

/-- A fault with its place.  Lines and columns count from one, columns in bytes. -/
structure Fault where
  line : Nat
  column : Nat
  cause : Error
deriving DecidableEq

/-- The error of a failed assembly. -/
def Fault.toError (f : Fault) : Error := .assembly f.line f.column f.cause.message

end Assembly

namespace Error

/-- A line without the carriage returns at its end. -/
def stripReturns (line : List Char) : List Char :=
  (line.reverse.dropWhile (· == '\r')).reverse

/-- The line a diagnostic shows, with its number in front and a mark below. -/
def excerpt (line column : Nat) (text : List Char) : String :=
  let number := String.ofList ((Nat.toDigits 10 line).leftpad 4 ' ')
  let shown := String.ofList (stripReturns text)
  let indent := String.ofList (List.replicate (column - 1) ' ')
  s!"  |\n{number} | {shown}\n  | {indent}^"

/-- The report of an error met in a file with the given source text. -/
def diagnostic (file source : String) : Error → String
  | assembly line column message =>
    let head := s!"error: {message}\n --> {file}:{line}:{column}\n"
    match (Text.lines source.toList)[line - 1]? with
    | some text => head ++ excerpt line column text
    | none => head
  | e => s!"error: {file}: {e.message}"

end Error

end StackMachine
