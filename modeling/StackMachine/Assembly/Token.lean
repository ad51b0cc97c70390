import StackMachine.Text.Split

/-!
# Tokens

A line of source text is a row of tokens between separators: commas, spaces, tabs and
carriage returns.  Inside brackets nothing separates, and nothing starts a comment.  A
position is inside if the last bracket before it opens.

Main definitions:

- `Mark`, a character of a line with its column;
- `marks`, the characters of a line up to its comment;
- `tokenize`, the tokens of a line, or the column of the bracket that is not closed.
-/

namespace StackMachine.Assembly

/-- A token with the column of its first byte, counted from one. -/
structure Token where
  text : String
  column : Nat
deriving DecidableEq

/-- A character in its place on a line. -/
structure Mark where
  char : Char
  /-- The column of the first byte, counted from one. -/
  column : Nat
  /-- Whether the last bracket before it opens. -/
  inside : Bool
deriving DecidableEq

/-- Whether the position after a character is inside. -/
def insideAfter (inside : Bool) (c : Char) : Bool :=
  if c = '[' then true else if c = ']' then false else inside

/-- The characters of a line from a column on, up to its comment. -/
def marks (inside : Bool) (column : Nat) : List Char → List Mark
  | [] => []
  | c :: cs =>
    if c = '#' ∧ inside = false then []
    else ⟨c, column, inside⟩ :: marks (insideAfter inside c) (column + c.utf8Size) cs

/-- Whether a character separates tokens. -/
def Mark.isSeparator (m : Mark) : Bool :=
  !m.inside && (m.char == ',' || m.char == ' ' || m.char == '\t' || m.char == '\r')

/-- The token that a run of characters spells; an empty run spells none. -/
def tokenOf? : List Mark → Option Token
  | [] => none
  | m :: ms => some ⟨String.ofList ((m :: ms).map Mark.char), m.column⟩

/-- Whether the position after the marks is inside. -/
def endsInside (ms : List Mark) : Bool :=
  ms.foldl (fun inside m => insideAfter inside m.char) false

/-- The column of the last opening bracket. -/
def lastOpening (ms : List Mark) : Nat :=
  match (ms.filter fun m => m.char = '[').getLast? with
  | some m => m.column
  | none => 1

/-- The tokens of a line, or the column of a bracket that is not closed. -/
def tokenize (line : List Char) : Except Nat (List Token) :=
  let ms := marks false 1 line
  if endsInside ms then .error (lastOpening ms)
  else .ok ((Text.cut Mark.isSeparator ms).filterMap tokenOf?)

end StackMachine.Assembly
