import StackMachine.Operand.Basic

/-!
# Registers and memory

Four registers and a fixed number of memory cells, all zero at first.
-/

namespace StackMachine

/-- The values of the registers. -/
structure Registers where
  rax : Double
  rbx : Double
  rcx : Double
  rdx : Double
deriving DecidableEq

namespace Registers

/-- All registers zero. -/
def zero : Registers := ⟨.zero, .zero, .zero, .zero⟩

/-- The value of a register. -/
def get (rs : Registers) : Register → Double
  | .rax => rs.rax
  | .rbx => rs.rbx
  | .rcx => rs.rcx
  | .rdx => rs.rdx

/-- The registers with one of them replaced. -/
def set (rs : Registers) (r : Register) (v : Double) : Registers :=
  match r with
  | .rax => { rs with rax := v }
  | .rbx => { rs with rbx := v }
  | .rcx => { rs with rcx := v }
  | .rdx => { rs with rdx := v }

/-- The values, by number. -/
def toList (rs : Registers) : List Double := Register.all.map rs.get

/-- The names and values in one line. -/
def toText (rs : Registers) : String :=
  " ".intercalate (Register.all.map fun r => s!"{r.name}={(rs.get r).toText}")

end Registers

/-- The memory cells. -/
structure Ram where
  cells : Vector Double ramSize

namespace Ram

/-- All cells zero. -/
def zero : Ram := ⟨Vector.replicate ramSize .zero⟩

/-- The value of a cell. -/
def get (m : Ram) (a : Fin ramSize) : Double := m.cells.get a

/-- The memory with one cell replaced. -/
def set (m : Ram) (a : Fin ramSize) (v : Double) : Ram := ⟨m.cells.set a v⟩

/-- The value at an address, if there is such a cell. -/
def get? (m : Ram) (address : Nat) : Option Double := m.cells[address]?

/-- The memory with the cell at an address replaced, if there is such a cell. -/
def set? (m : Ram) (address : Nat) (v : Double) : Option Ram :=
  if h : address < ramSize then some (m.set ⟨address, h⟩ v) else none

/-- The first cells, if there are so many. -/
def first? (m : Ram) (count : Nat) : Option (List Double) :=
  if count ≤ ramSize then some (m.cells.toList.take count) else none

end Ram

end StackMachine
