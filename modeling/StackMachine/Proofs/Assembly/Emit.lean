import StackMachine.Assembly.Assemble
import StackMachine.Proofs.Assembly.Layout
import StackMachine.Proofs.Operand.Codec

/-!
# Instructions of source lines

A line gives an instruction operand by operand.  Apart from stack operands, an operand is
one token and one double, and the double is that of a number the token names; a stack
operand is one token, or none, and two doubles.  The results below say when a line gives an
instruction, without the places and causes of faults.

Main results:

- Theorem `Scope.resolve_eq_ok`: a token gives the double of the number it names.
- Theorem `Scope.emit_eq_ok`: the instruction of a line without a stack operand.
- Theorem `Scope.emit_eq_ok_of_isStack`: the instruction of a push or a pop.
- Theorem `assemble_eq_ok`: the instructions of a source text.
-/

namespace StackMachine

open Fallible

/-- Whether an operand is a token and a double of its own. -/
def OperandKind.isPlain : OperandKind → Bool
  | .mode | .location => false
  | _ => true

/-- Whether an instruction has a stack operand. -/
def Opcode.isStack : Opcode → Bool
  | push | pop => true
  | _ => false

/-- An instruction on the stack has one operand, which takes a mode and a location. -/
theorem Opcode.operands_of_isStack {op : Opcode} (hop : op.isStack = true) :
    op.operands = [.mode, .location] := by
  cases op <;> first | rfl | cases hop

/-- The operands of all other instructions are single numbers. -/
theorem Opcode.isPlain_of_mem {op : Opcode} (hop : op.isStack = false) :
    ∀ kind ∈ op.operands, kind.isPlain = true := by
  cases op <;> simp_all [Opcode.isStack, Opcode.operands, OperandKind.isPlain]

namespace Assembly

/-- The end of a body is the first operand of a header. -/
theorem isHeader_of_bodyEnd {op : Opcode} {k : Nat}
    (hx : (OperandKind.bodyEnd, k) ∈ op.operands.zipIdx) : op.isHeader = true ∧ k = 0 := by
  cases op <;> simp_all [Opcode.operands, Opcode.isHeader, List.zipIdx]

/-- The text of the operand token with the given number. -/
def SourceLine.text (l : SourceLine) (n : Nat) : String := (l.operands[n]?.map Token.text).getD ""

namespace Scope

variable {s : Scope} {l : SourceLine}

/-! ## Operands -/

/-- A word that is a label stands for the offset where the label is, unless this is the end of the
program. -/
theorem resolveLabel_eq_ok {token : String} {n : Nat} :
    s.resolveLabel token = .ok n ↔
      ∃ name, labelOf? token = some name ∧ s.labels.lookup name = some n ∧ n < s.length := by
  unfold resolveLabel
  cases labelOf? token with
  | none => simp
  | some name =>
    simp only [Option.some.injEq, exists_eq_left']
    cases hlookup : s.labels.lookup name with
    | none => simp
    | some target =>
      by_cases hlt : target < s.length
      · simp only [hlt, if_true, Except.ok.injEq, Option.some.injEq]
        constructor
        · rintro rfl
          exact ⟨rfl, hlt⟩
        · exact fun hn => hn.1
      · simp only [hlt, if_false, reduceCtorEq, Option.some.injEq, false_iff]
        rintro ⟨rfl, hlt'⟩
        exact hlt hlt'

/-- A word that names a function stands for its extent, with or without a colon. -/
theorem resolveFunction_eq_ok {token : String} {extent : Extent} :
    s.resolveFunction token = .ok extent ↔
      s.functions.lookup (functionOf token) = some extent := by
  unfold resolveFunction
  cases s.functions.lookup (functionOf token) with
  | none => simp
  | some extent' => simp

/-- The number a token names as an operand of the given kind. -/
def Names (s : Scope) (kind : OperandKind) (text : String) (n : Nat) : Prop :=
  match kind with
  | .mode | .location => False
  | .target => s.resolveLabel text = .ok n
  | .function => ∃ extent, s.resolveFunction text = .ok extent ∧ extent.entry = n
  | .bodyEnd => ∃ extent, s.resolveFunction text = .ok extent ∧ extent.finish = n
  | .count | .slot => parseCount text = .ok n
  | .length => parseCount text = .ok n ∧ n < ramSize
  | .frameSize => parseCount text = .ok n ∧ n ≤ maxFrameSlots

/-- A token gives the double of the number it names. -/
theorem resolve_eq_ok {kind : OperandKind} {token : Option String} {values : List Double}
    (hkind : kind.isPlain = true) :
    s.resolve l kind token = .ok values ↔
      ∃ n, s.Names kind (token.getD "") n ∧ values = [Double.ofNat n] := by
  cases kind with
  | mode => cases hkind
  | location => cases hkind
  | target | count | slot =>
    simp only [resolve, Names, bind_eq_ok, mapError_eq_ok, pure_eq_ok]
    exact exists_congr fun n => and_congr_right fun _ => eq_comm
  | function | bodyEnd =>
    simp only [resolve, Names, bind_eq_ok, mapError_eq_ok, pure_eq_ok]
    constructor
    · rintro ⟨extent, hextent, rfl⟩
      exact ⟨_, ⟨extent, hextent, rfl⟩, rfl⟩
    · rintro ⟨_, ⟨extent, hextent, rfl⟩, rfl⟩
      exact ⟨extent, hextent, rfl⟩
  | length | frameSize =>
    simp only [resolve, Names, bind_eq_ok, mapError_eq_ok, guard_eq_ok, pure_eq_ok, and_assoc]
    exact exists_congr fun n => and_congr_right fun _ => and_congr_right fun _ => eq_comm

/-- The tokens of a row of operands give a double each. -/
theorem resolveAll_eq_ok {kinds : List OperandKind} {tokens : List Token} {values : List Double}
    (hkinds : ∀ kind ∈ kinds, kind.isPlain = true) :
    s.resolveAll l kinds tokens = .ok values ↔
      values.length = kinds.length ∧ ∀ (i : Nat) (kind : OperandKind), kinds[i]? = some kind →
        ∃ n, s.Names kind ((tokens[i]?.map Token.text).getD "") n ∧
          values[i]? = some (Double.ofNat n) := by
  induction kinds generalizing tokens values with
  | nil => simp [resolveAll, eq_comm]
  | cons kind kinds ih =>
    simp only [resolveAll, bind_eq_ok, mapError_eq_ok, pure_eq_ok,
      resolve_eq_ok (hkinds kind List.mem_cons_self),
      ih fun k hk => hkinds k (List.mem_cons_of_mem _ hk)]
    have hhead : tokens.head? = tokens[0]? := List.head?_eq_getElem?
    have htail (i : Nat) : tokens.tail[i]? = tokens[i + 1]? := List.getElem?_tail
    simp only [hhead, htail]
    constructor
    · rintro ⟨_, ⟨n, hn, rfl⟩, rest, ⟨hlen, hrest⟩, rfl⟩
      refine ⟨by simp [hlen], ?_⟩
      intro i kind' hi
      cases i with
      | zero =>
        cases hi
        exact ⟨n, hn, rfl⟩
      | succ i => exact hrest i kind' hi
    · rintro ⟨hlen, hall⟩
      cases values with
      | nil => simp at hlen
      | cons v rest =>
        rcases hall 0 kind rfl with ⟨n, hn, hv⟩
        cases hv
        exact ⟨_, ⟨n, hn, rfl⟩, rest, ⟨by simpa using hlen, fun i kind' hi => hall (i + 1) kind' hi⟩,
          rfl⟩

/-! ## Instructions -/

/-- Every operand that is a single number is written. -/
theorem filter_hasToken {op : Opcode} (hop : op.isStack = false) :
    op.operands.filter OperandKind.hasToken = op.operands := by
  cases op <;> first | rfl | cases hop

theorem tokenCount_eq {op : Opcode} (hop : op.isStack = false) : op.tokenCount = op.arity := by
  rw [Opcode.tokenCount, filter_hasToken hop, Opcode.arity]

/-- A line has an instruction exactly when it has as many words as its opcode asks for, and these
are resolved to the operands. -/
theorem emit_eq_ok_iff {i : Instruction} :
    s.emit l = .ok i ↔ l.hasArity = true ∧ i.opcode = l.opcode ∧
      s.resolveAll l (l.opcode.operands.filter OperandKind.hasToken) l.operands =
        .ok i.operands := by
  unfold emit
  by_cases harity : l.hasArity = true
  · simp only [harity, if_true, bind_eq_ok, pure_eq_ok, true_and]
    constructor
    · rintro ⟨values, hvalues, rfl⟩
      exact ⟨rfl, hvalues⟩
    · rintro ⟨hop, hvalues⟩
      exact ⟨_, hvalues, by rw [← hop]⟩
  · simp [harity]

/-- The instruction of a line without a stack operand. -/
theorem emit_eq_ok (hop : l.opcode.isStack = false) {i : Instruction} :
    s.emit l = .ok i ↔ l.operands.length = l.opcode.arity ∧ i.opcode = l.opcode ∧ i.HasArity ∧
      ∀ x ∈ l.opcode.operands.zipIdx,
        ∃ n, s.Names x.1 (l.text x.2) n ∧ i.operand x.2 = Double.ofNat n := by
  have harity : l.hasArity = true ↔ l.operands.length = l.opcode.arity := by
    have hpop : (l.opcode == .pop) = false := by
      cases hl : l.opcode <;> first | rfl | (rw [hl] at hop; cases hop)
    simp [SourceLine.hasArity, tokenCount_eq hop, hpop]
  rw [emit_eq_ok_iff, filter_hasToken hop, resolveAll_eq_ok (Opcode.isPlain_of_mem hop), harity]
  refine and_congr_right fun _ => and_congr_right fun hi => ?_
  rw [Instruction.HasArity, hi]
  refine and_congr_right fun hlen => ?_
  constructor
  · rintro hall ⟨kind, n⟩ hx
    rcases hall n kind (List.mk_mem_zipIdx_iff_getElem?.mp hx) with ⟨k, hk, hvalue⟩
    exact ⟨k, hk, by simp [Instruction.operand, List.getD_eq_getElem?_getD, hvalue]⟩
  · intro hall n kind hkind
    rcases hall (kind, n) (List.mk_mem_zipIdx_iff_getElem?.mpr hkind) with ⟨k, hk, hvalue⟩
    refine ⟨k, hk, ?_⟩
    have hlt : n < i.operands.length := by
      rw [hlen]
      exact (List.getElem?_eq_some_iff.mp hkind).1
    simp [← hvalue, Instruction.operand, List.getD_eq_getElem?_getD, List.getElem?_eq_getElem hlt]

/-- The instruction of a push or a pop. -/
theorem emit_eq_ok_of_isStack (hop : l.opcode.isStack = true) {i : Instruction} :
    s.emit l = .ok i ↔ l.hasArity = true ∧ i.opcode = l.opcode ∧
      ∃ x, resolveStackOperand l.opcode (l.operands.head?.map Token.text) = .ok x ∧
        i.operands = [x.encode.1, x.encode.2] := by
  rw [emit_eq_ok_iff, Opcode.operands_of_isStack hop]
  refine and_congr_right fun _ => and_congr_right fun _ => ?_
  have hfilter : [OperandKind.mode, .location].filter OperandKind.hasToken = [.mode] := rfl
  simp only [hfilter, resolveAll, resolve, bind_eq_ok, mapError_eq_ok, pure_eq_ok]
  constructor
  · rintro ⟨_, ⟨x, hx, rfl⟩, _, ⟨⟩, hvalues⟩
    exact ⟨x, hx, hvalues.symm⟩
  · rintro ⟨x, hx, hvalues⟩
    exact ⟨_, ⟨x, hx, rfl⟩, [], rfl, hvalues.symm⟩

/-- The instruction of a line has its opcode, and all its operands. -/
theorem opcode_of_emit {i : Instruction} (hi : s.emit l = .ok i) :
    i.opcode = l.opcode ∧ i.HasArity := by
  cases hop : l.opcode.isStack with
  | false =>
    rcases (emit_eq_ok hop).mp hi with ⟨_, hopcode, harity, _⟩
    exact ⟨hopcode, harity⟩
  | true =>
    rcases (emit_eq_ok_of_isStack hop).mp hi with ⟨_, hopcode, x, _, hvalues⟩
    refine ⟨hopcode, ?_⟩
    rw [Instruction.HasArity, hopcode, Opcode.arity, Opcode.operands_of_isStack hop, hvalues]
    rfl

end Scope

/-! ## Source texts -/

/-- The scope of a layout and its functions. -/
def Layout.scope (layout : Layout) (functions : List (String × Extent)) : Scope :=
  ⟨layout.labels, functions, layout.length⟩

/-- A source text gives a program when it has a layout and functions, and each line an
instruction. -/
theorem assemble_eq_ok {source : String} {p : Program} :
    assemble source = .ok p ↔ ∃ l fs is, layout source = .ok l ∧ l.routines = .ok fs ∧
      List.Forall₂ (fun line i => (l.scope fs).emit line = .ok i) l.lines is ∧
      p = Program.ofCode (is.flatMap Instruction.encode) := by
  simp only [assemble, instructions, bind_eq_ok, pure_eq_ok, mapM_eq_ok, Layout.scope]
  constructor
  · rintro ⟨is, ⟨l, hl, fs, hfs, his⟩, rfl⟩
    exact ⟨l, fs, is, hl, hfs, his, rfl⟩
  · rintro ⟨l, fs, is, hl, hfs, his, rfl⟩
    exact ⟨is, ⟨l, hl, fs, hfs, his⟩, rfl⟩

end Assembly

end StackMachine
