import StackMachine.Double.Basic

/-!
# Guarded stacks

A stack that watches over itself.  Three sentinel words and a checksum over the bytes of
its elements are checked before and after every operation that changes it, and a
violation ends the process.  The stack counts a capacity: it doubles when the stack is
full, and halves, down to the initial one, while at most a quarter is in use.

An operation gives either its result or the `Abort` that ends the process.

Main definitions:

- `Guarded`, elements with a sum of bytes;
- `GuardedStack`, `GuardedStack.toList`, `GuardedStack.faults`;
- `push`, `tryPop`, `pop`, `set`, `truncate`, `take`, `clone`;
- `overwriteItem` and `overwriteSentinel`, the damage the guards are there to find.
-/

namespace StackMachine

/-- Elements that contribute to the checksum of a guarded stack. -/
class Guarded (α : Type) where
  /-- The sum of the bytes of an element. -/
  byteSum : α → UInt64

export Guarded (byteSum)

/-- The byte of a word that starts at the given bit. -/
def byteAt (w bit : UInt64) : UInt64 := (w >>> bit) &&& 0xff

/-- The sum of the eight bytes of a word. -/
def wordByteSum (w : UInt64) : UInt64 :=
  byteAt w 0 + byteAt w 8 + byteAt w 16 + byteAt w 24 +
    byteAt w 32 + byteAt w 40 + byteAt w 48 + byteAt w 56

instance : Guarded UInt64 := ⟨wordByteSum⟩

instance : Guarded Double := ⟨fun v => wordByteSum v.bits⟩

/-- The value of an intact sentinel. -/
def canary : UInt32 := 0xdeadbeef

/-- The capacity of a stack that is given none. -/
def defaultCapacity : Nat := 128

/-- A violated guard. -/
inductive StackFault where
  | frontSentinel (found : UInt32)
  | backSentinel (found : UInt32)
  | redundantSentinel (found : UInt32)
  | checksum (expected found : UInt64)
deriving DecidableEq

/-- A word in hexadecimal. -/
def hexWord (w : UInt32) : String := "0x" ++ String.ofList (Nat.toDigits 16 w.toNat)

/-- The text of a violated guard. -/
def StackFault.message : StackFault → String
  | frontSentinel found =>
    s!"front sentinel is dead (expected {hexWord canary}, found {hexWord found})"
  | backSentinel found =>
    s!"back sentinel is dead (expected {hexWord canary}, found {hexWord found})"
  | redundantSentinel found =>
    s!"redundant sentinel is dead (expected {hexWord canary}, found {hexWord found})"
  | checksum expected found =>
    s!"checksum mismatch (expected {expected.toNat}, found {found.toNat})"

/-- A stack with its guards. -/
structure GuardedStack (α : Type) where
  front : UInt32
  /-- The elements, bottom first. -/
  items : Array α
  capacity : Nat
  /-- What the capacity does not shrink below. -/
  minCapacity : Nat
  /-- The stored sum of the bytes of all elements. -/
  checksum : UInt64
  back : UInt32
  redundant : UInt32

namespace GuardedStack

/-- What ends the process. -/
inductive Problem where
  | fault (f : StackFault)
  | emptyPop
deriving DecidableEq

/-- The text of a problem. -/
def Problem.message : Problem → String
  | fault f => f.message
  | emptyPop => "pop from an empty stack"

/-- The end of the process, with the state of the stack that caused it. -/
structure Abort where
  operation : String
  size : Nat
  capacity : Nat
  checksum : UInt64
  problems : List Problem
deriving DecidableEq

/-- The report of an abort, line by line. -/
def Abort.lines (a : Abort) : List String :=
  let state := s!"(size {a.size}, capacity {a.capacity}, checksum {a.checksum.toNat})"
  s!"guarded stack failure during {a.operation} {state}" ::
    a.problems.map fun p => "  " ++ p.message

variable {α : Type}

/-- The empty stack with the given initial capacity, which is at least one. -/
def empty (capacity : Nat) : GuardedStack α :=
  ⟨canary, #[], max capacity 1, max capacity 1, 0, canary, canary⟩

/-- The elements, bottom first. -/
def toList (s : GuardedStack α) : List α := s.items.toList

/-- The number of elements. -/
def size (s : GuardedStack α) : Nat := s.items.size

/-- The element on top. -/
def top? (s : GuardedStack α) : Option α := s.items.back?

/-- The element at a place counted from the bottom. -/
def get? (s : GuardedStack α) (i : Nat) : Option α := s.items[i]?

/-! ## Guards -/

/-- The abort of an operation for the given problems. -/
def abort (s : GuardedStack α) (operation : String) (problems : List Problem) : Abort :=
  ⟨operation, s.size, s.capacity, s.checksum, problems⟩

/-- The capacity after halving it while at most a quarter is in use. -/
def shrink (floor size capacity : Nat) : Nat :=
  if floor < capacity ∧ size ≤ capacity / 4 then shrink floor size (max (capacity / 2) floor)
  else capacity
termination_by capacity
decreasing_by omega

variable [Guarded α]

/-- The sum of the bytes of some elements. -/
def sumOf (items : Array α) : UInt64 := items.foldl (fun sum a => sum + byteSum a) 0

/-- The violated guards, in the order they are reported. -/
def faults (s : GuardedStack α) : List StackFault :=
  (if s.front = canary then [] else [.frontSentinel s.front]) ++
    (if s.back = canary then [] else [.backSentinel s.back]) ++
    (if s.redundant = canary then [] else [.redundantSentinel s.redundant]) ++
    (if sumOf s.items = s.checksum then [] else [.checksum s.checksum (sumOf s.items)])

/-- The first violated guard. -/
def verify (s : GuardedStack α) : Option StackFault := s.faults.head?

/-- Ends the process if a guard is violated. -/
def check (s : GuardedStack α) (operation : String) : Except Abort Unit :=
  match s.faults with
  | [] => .ok ()
  | fs => .error (s.abort operation (fs.map .fault))

/-- Checks a stack before and after a change. -/
def guarded (s : GuardedStack α) (operation : String) (changed : GuardedStack α) :
    Except Abort (GuardedStack α) := do
  s.check operation
  changed.check operation
  return changed

/-! ## Operations -/

/-- Puts an element on top. -/
def push (s : GuardedStack α) (a : α) : Except Abort (GuardedStack α) :=
  s.guarded "push" { s with
    items := s.items.push a
    capacity := if s.size = s.capacity then s.capacity * 2 else s.capacity
    checksum := s.checksum + byteSum a }

/-- Removes the top element, if there is one. -/
def tryPop (s : GuardedStack α) : Except Abort (Option α × GuardedStack α) :=
  match s.top? with
  | none => do
    s.check "pop"
    return (none, s)
  | some a => do
    let s' ← s.guarded "pop" { s with
      items := s.items.pop
      capacity := shrink s.minCapacity (s.size - 1) s.capacity
      checksum := s.checksum - byteSum a }
    return (some a, s')

/-- Removes the top element.  There must be one. -/
def pop (s : GuardedStack α) : Except Abort (α × GuardedStack α) := do
  match ← s.tryPop with
  | (some a, s') => return (a, s')
  | (none, s') => throw (s'.abort "pop" [.emptyPop])

/-- Replaces the element at a place counted from the bottom.  Says whether the place
exists. -/
def set (s : GuardedStack α) (i : Nat) (a : α) : Except Abort (Bool × GuardedStack α) :=
  match s.get? i with
  | none => do
    s.check "set"
    return (false, s)
  | some old => do
    let s' ← s.guarded "set" { s with
      items := s.items.setIfInBounds i a
      checksum := s.checksum - byteSum old + byteSum a }
    return (true, s')

/-- Removes the elements above the given number. -/
def truncate (s : GuardedStack α) (length : Nat) : Except Abort (GuardedStack α) :=
  s.guarded "truncate" { s with
    items := s.items.take length
    capacity := shrink s.minCapacity (min length s.size) s.capacity
    checksum := s.checksum - sumOf (s.items.drop length) }

/-- Moves the elements out: the stack that now has them, and the emptied one. -/
def take (s : GuardedStack α) : Except Abort (GuardedStack α × GuardedStack α) := do
  s.check "take"
  return (s, empty s.minCapacity)

/-- A copy with sentinels of its own. -/
def clone (s : GuardedStack α) : Except Abort (GuardedStack α) := do
  s.check "clone"
  return { s with front := canary, back := canary, redundant := canary }

/-! ## Damage -/

/-- The sentinel words. -/
inductive Sentinel where
  | front | back | redundant
deriving DecidableEq

omit [Guarded α] in
/-- Overwrites an element behind the back of the checksum. -/
def overwriteItem (s : GuardedStack α) (i : Nat) (a : α) : GuardedStack α :=
  { s with items := s.items.setIfInBounds i a }

omit [Guarded α] in
/-- Overwrites a sentinel word. -/
def overwriteSentinel (s : GuardedStack α) (word : UInt32) : Sentinel → GuardedStack α
  | .front => { s with front := word }
  | .back => { s with back := word }
  | .redundant => { s with redundant := word }

end GuardedStack

end StackMachine
