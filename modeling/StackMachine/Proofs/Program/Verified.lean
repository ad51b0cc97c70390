import StackMachine.Program.Verify
import StackMachine.Proofs.Fallible
import StackMachine.Proofs.Program.Stream

/-!
# Verified programs

Verification asks something of each operand, by its kind.  `CodeMap.Admits` states it
without the errors and their order, and a program is verified exactly when its stream
decodes and every operand is admitted.

Main results:

- Theorem `CodeMap.checkOperand_eq_ok`: an operand passes its check exactly when it is
  admitted.
- Theorem `Program.verify_eq_ok`: a program is verified exactly when it decodes and all its
  operands are admitted.
-/

namespace StackMachine

open Fallible

/-- The first operand of a header is the end of its body. -/
theorem mem_zipIdx_of_isHeader {op : Opcode} (hop : op.isHeader = true) :
    (OperandKind.bodyEnd, 0) ∈ op.operands.zipIdx := by
  cases op <;> simp_all [Opcode.operands, Opcode.isHeader, List.zipIdx]

namespace CodeMap

/-- What verification asks of an operand of the given kind and number. -/
def Admits (m : CodeMap) (d : Placed) (kind : OperandKind) (n : Nat) : Prop :=
  match kind with
  | .location => True
  | .mode => ∃ x, Operand.decode d.opcode.mnemonic d.offset (d.operand n) (d.operand (n + 1)) = .ok x
  | .target => ∃ t, (d.operand n).index? = some t ∧ codeStart ≤ t ∧ t < m.length ∧
      m.isBoundary t = true
  | .function => ∃ t, (d.operand n).index? = some t ∧ codeStart ≤ t ∧ t < m.length ∧
      m.isHeader t = true
  | .bodyEnd => ∃ t, (d.operand n).index? = some t ∧ codeStart ≤ t ∧ t ≤ m.length ∧
      d.offset < t ∧ (t = m.length ∨ m.isBoundary t = true)
  | .count | .slot => ∃ k, (d.operand n).index? = some k
  | .frameSize => ∃ k, (d.operand n).index? = some k ∧ k ≤ maxFrameSlots
  | .length => ∃ k, (d.operand n).index? = some k ∧ k < ramSize

/-- A number is accepted exactly when it is an index. -/
theorem checkNatural_eq_ok {d : Placed} {value : Double} {k : Nat} :
    checkNatural d value = .ok k ↔ value.index? = some k := by
  unfold checkNatural
  split <;> simp_all

/-- An offset is accepted exactly when it is an index inside of the code. -/
theorem checkOffset_eq_ok {m : CodeMap} {d : Placed} {value : Double} {bound t : Nat} :
    m.checkOffset d value bound = .ok t ↔
      value.index? = some t ∧ codeStart ≤ t ∧ t < bound := by
  unfold checkOffset
  split
  · rename_i target htarget
    split
    · rename_i hrange
      simp only [htarget, Except.ok.injEq, Option.some.injEq]
      constructor
      · rintro rfl
        exact ⟨rfl, hrange⟩
      · exact fun h => h.1
    · rename_i hrange
      simp only [htarget, reduceCtorEq, Option.some.injEq, false_iff]
      rintro ⟨rfl, hrange'⟩
      exact hrange hrange'
  · rename_i hnone
    simp [hnone]

/-- An operand passes its check exactly when it is admitted. -/
theorem checkOperand_eq_ok {m : CodeMap} {d : Placed} {kind : OperandKind} {n : Nat} :
    m.checkOperand d kind n = .ok () ↔ m.Admits d kind n := by
  cases kind with
  | location => simp [checkOperand, Admits]
  | mode => simp only [checkOperand, Admits, discard_eq_ok]
  | target =>
    simp only [checkOperand, Admits, bind_eq_ok, checkOffset_eq_ok, guard_eq_ok, pure_eq_ok,
      and_true, and_assoc]
  | function =>
    simp only [checkOperand, Admits, bind_eq_ok, checkOffset_eq_ok, guard_eq_ok, pure_eq_ok,
      and_true, and_assoc]
  | bodyEnd =>
    simp only [checkOperand, Admits, bind_eq_ok, checkOffset_eq_ok, guard_eq_ok, pure_eq_ok,
      and_true, and_assoc, Nat.lt_succ_iff]
  | count => simp only [checkOperand, Admits, discard_eq_ok, checkNatural_eq_ok]
  | frameSize => simp only [checkOperand, Admits, bind_eq_ok, checkNatural_eq_ok, guard_eq_ok, pure_eq_ok, and_true]
  | length => simp only [checkOperand, Admits, bind_eq_ok, checkNatural_eq_ok, guard_eq_ok, pure_eq_ok, and_true]
  | slot => simp only [checkOperand, Admits, discard_eq_ok, checkNatural_eq_ok]

/-- An instruction is accepted exactly when all its operands are admitted. -/
theorem checkInstruction_eq_ok {m : CodeMap} {d : Placed} :
    m.checkInstruction d = .ok () ↔
      ∀ x ∈ d.opcode.operands.zipIdx, m.Admits d x.1 x.2 := by
  simp only [checkInstruction, forM_eq_ok, checkOperand_eq_ok]

/-- A boundary is the offset of an instruction. -/
theorem isBoundary_eq_true {m : CodeMap} {offset : Nat} :
    m.isBoundary offset = true ↔ ∃ d ∈ m.placed, d.offset = offset := by
  simp [isBoundary]

/-- A header is at the offset of an instruction that is one. -/
theorem isHeader_eq_true {m : CodeMap} {offset : Nat} :
    m.isHeader offset = true ↔ ∃ d ∈ m.placed, d.offset = offset ∧ d.opcode.isHeader = true := by
  simp [isHeader]

end CodeMap

namespace Program

/-- A program is verified exactly when it decodes and all its operands are admitted. -/
theorem verify_eq_ok {p : Program} :
    p.verify = .ok () ↔ ∃ ds, p.decode = .ok ds ∧
      ∀ d ∈ ds, ∀ x ∈ d.opcode.operands.zipIdx, CodeMap.Admits ⟨p.size, ds⟩ d x.1 x.2 := by
  simp only [verify, bind_eq_ok, forM_eq_ok, CodeMap.checkInstruction_eq_ok]

end Program

end StackMachine
