import StackMachine.Assembly.Layout

/-!
# Functions of a source text

A function runs from its header to the next end mark.  Functions are not nested, and
no two have the same name.
-/

namespace StackMachine.Assembly

/-- Where a function is. -/
structure Extent where
  /-- The offset of the header. -/
  entry : Nat
  /-- The offset just past the end mark. -/
  finish : Nat
deriving DecidableEq

/-- A function whose end mark has not been met. -/
structure OpenRoutine where
  name : String
  entry : Nat
  /-- The line and the column of the name. -/
  line : Nat
  column : Nat

/-- Opens the function a header line declares. -/
def openRoutine (functions : List (String × Extent)) (current : Option OpenRoutine)
    (l : SourceLine) : Except Fault OpenRoutine :=
  match l.operands with
  | [] => .error ⟨l.number, l.column,
      .source (.arityMismatch l.opcode.mnemonic l.opcode.tokenCount 0)⟩
  | token :: _ =>
    let name := functionOf token.text
    let fault (cause : SourceError) : Except Fault OpenRoutine :=
      .error ⟨l.number, token.column, .source cause⟩
    if name = "" then fault (.undefinedFunction token.text)
    else if current.isSome then fault (.nestedFunction name)
    else if (functions.lookup name).isSome then fault (.duplicateFunction name)
    else .ok ⟨name, l.offset, l.number, token.column⟩

/-- Finds the functions of the lines, given those before them and the one still open. -/
def collectRoutines (functions : List (String × Extent)) (current : Option OpenRoutine) :
    List SourceLine → Except Fault (List (String × Extent))
  | [] =>
    match current with
    | none => .ok functions
    | some r => .error ⟨r.line, r.column, .source (.unterminatedFunction r.name)⟩
  | l :: ls =>
    if l.opcode.isHeader then do
      let r ← openRoutine functions current l
      collectRoutines functions (some r) ls
    else if l.opcode = .endFunc then
      match current with
      | none => .error ⟨l.number, l.column, .source .unmatchedEndFunc⟩
      | some r => collectRoutines ((r.name, ⟨r.entry, l.next⟩) :: functions) none ls
    else
      collectRoutines functions current ls

/-- The functions of a layout. -/
def Layout.routines (l : Layout) : Except Fault (List (String × Extent)) :=
  collectRoutines [] none l.lines

end StackMachine.Assembly
