import StackMachine.Proofs.Machine.Lockstep
import StackMachine.Proofs.Assembly.RoundTrip

/-!
# Programs that spell their operands differently

Most operands of an instruction stand for whole numbers, and zero has two spellings.  A pop
that discards its value has an operand that stands for nothing at all.  Two programs that
differ only in such operands run alike: what an instruction does depends on what its operands
decode to, not on their bits.  The only trace is in an error that shows the operand of a slot.

Main definitions:

- `Placed.Respells`, `Program.Respells`: instructions and programs that differ only in spelling;
- `Error.Matches`, errors that differ only in the operand they show.

Main results:

- Theorem `Program.Respells.agrees`: programs that differ only in spelling say the same at every
  instruction.
- Theorem `respelling_unobservable`: no run can tell them apart.
-/

namespace StackMachine

open Assembly (IsImmediate)

/-! ## Spellings -/

/-- One of the two zeros. -/
def Double.IsZero (v : Double) : Prop := v = Double.zero ∨ v = Double.negativeZero

/-- Both zeros are the index zero. -/
theorem Double.IsZero.index?_eq {v : Double} (h : v.IsZero) : v.index? = some 0 := by
  rcases h with rfl | rfl <;> decide +kernel

instance (v : Double) : Decidable v.IsZero := inferInstanceAs (Decidable (_ ∨ _))

instance (d : Placed) (op : Opcode) : Decidable (IsImmediate d op) :=
  inferInstanceAs (Decidable (_ ∧ _))

/-- Two operands with the given number differ at most in spelling.  The value of an immediate
push is the same double, and that of a pop that discards its value is any double. -/
def Placed.OperandRespells (d e : Placed) (k : Nat) : Prop :=
  d.operand k = e.operand k ∨
    ((d.operand k).IsZero ∧ (e.operand k).IsZero ∧ ¬ (IsImmediate d .push ∧ k = 1)) ∨
    (IsImmediate d .pop ∧ k = 1)

/-- Two instructions at one offset that differ at most in the spelling of their operands. -/
structure Placed.Respells (d e : Placed) : Prop where
  offset : d.offset = e.offset
  opcode : d.opcode = e.opcode
  operand : ∀ k < d.opcode.arity, d.OperandRespells e k

/-- Two programs of one length whose instructions differ at most in the spelling of their
operands. -/
structure Program.Respells (p q : Program) : Prop where
  size : p.size = q.size
  instructions : ∃ ds es, p.decode = .ok ds ∧ q.decode = .ok es ∧ List.Forall₂ Placed.Respells ds es

instance (d e : Placed) (k : Nat) : Decidable (d.OperandRespells e k) :=
  inferInstanceAs (Decidable (_ ∨ _))

instance (d e : Placed) : Decidable (d.Respells e) :=
  decidable_of_iff (d.offset = e.offset ∧ d.opcode = e.opcode ∧
    ∀ k < d.opcode.arity, d.OperandRespells e k)
    ⟨fun ⟨hoffset, hopcode, hoperand⟩ => ⟨hoffset, hopcode, hoperand⟩,
     fun h => ⟨h.offset, h.opcode, h.operand⟩⟩

/-! ## Operands in their decoded form -/

namespace Operand

variable {name : String} {offset : Nat} {mode value mode' value' : Double} {x : Operand}

/-- A mode that is zero makes the second double the value itself. -/
theorem decode_of_immediate (hmode : mode.index? = some 0) :
    decode name offset mode value = .ok (imm value) := decode_eq_ok_iff.mpr ⟨hmode, rfl⟩

/-- An operand other than an immediate is decoded from the numbers its doubles stand for. -/
theorem decode_of_index?_eq (hx : decode name offset mode value = .ok x)
    (himm : mode.index? ≠ some 0) (hmode : mode.index? = mode'.index?)
    (hvalue : value.index? = value'.index?) : decode name offset mode' value' = .ok x := by
  rw [decode_eq_ok_iff] at hx ⊢
  rw [← hmode, ← hvalue]
  cases x with
  | imm v => exact absurd hx.1 himm
  | reg r => exact hx
  | mem base displacement => exact hx

end Operand

namespace Placed.Respells

variable {d e : Placed}

/-- Operands that differ in spelling stand for the same number, unless they stand for nothing. -/
theorem index?_eq (h : d.Respells e) {k : Nat} (hk : k < d.opcode.arity)
    (hpop : ¬ (IsImmediate d .pop ∧ k = 1)) : (d.operand k).index? = (e.operand k).index? := by
  rcases h.operand k hk with heq | ⟨hd, he, _⟩ | himm
  · rw [heq]
  · rw [hd.index?_eq, he.index?_eq]
  · exact absurd himm hpop

/-- The value of an immediate push is kept bit for bit. -/
theorem pushed_eq (h : d.Respells e) (himm : IsImmediate d .push) :
    d.operand 1 = e.operand 1 := by
  have hk : 1 < d.opcode.arity := by
    rw [himm.1]
    decide
  rcases h.operand 1 hk with heq | ⟨_, _, hpush⟩ | ⟨⟨hpop, _⟩, _⟩
  · exact heq
  · exact absurd ⟨himm, rfl⟩ hpush
  · rw [himm.1] at hpop
    cases hpop

section Stack

variable (h : d.Respells e) (harity : d.opcode.arity = 2)
include h harity

theorem mode_eq : (d.operand 0).index? = (e.operand 0).index? :=
  h.index?_eq (by omega) (by simp)

/-- Operands that are no values themselves are spelled the same. -/
theorem decode_of_not_immediate {name : String} {offset : Nat} {x : Operand}
    (hx : Operand.decode name offset (d.operand 0) (d.operand 1) = .ok x)
    (himm : (d.operand 0).index? ≠ some 0) :
    Operand.decode name offset (e.operand 0) (e.operand 1) = .ok x :=
  have hk : 1 < d.opcode.arity := by omega
  Operand.decode_of_index?_eq hx himm (h.mode_eq harity)
    (h.index?_eq hk fun hpop => himm hpop.1.2)

end Stack

end Placed.Respells

/-! ## Errors -/

/-- Two errors of one kind at one offset: they are the same, or the same but for the slot they
show. -/
structure Error.Matches (e e' : Error) : Prop where
  offset? : e.offset? = e'.offset?
  cause : e = e' ∨ ∃ instruction offset slot slot' available,
    e = .run (.slotOutOfRange instruction offset slot available) ∧
    e' = .run (.slotOutOfRange instruction offset slot' available)

theorem Error.Matches.refl (e : Error) : e.Matches e := ⟨rfl, .inl rfl⟩

/-! ## Programs -/

/-- Instructions that differ in spelling say the same. -/
theorem Placed.Respells.agrees {map : CodeMap} {d e : Placed} (h : d.Respells e)
    (hadmits : ∀ x ∈ d.opcode.operands.zipIdx, map.Admits d x.1 x.2) :
    Instruction.Agrees Error.Matches d.offset d.toInstruction e.toInstruction where
  opcode := h.opcode
  pushed hop := by
    have harity : d.opcode.arity = 2 := hop ▸ rfl
    obtain ⟨x, hx⟩ := hadmits (.mode, 0) (by rw [hop]; decide)
    rw [hop] at hx
    by_cases himm : (d.operand 0).index? = some 0
    · have himm' : (e.operand 0).index? = some 0 := h.mode_eq harity ▸ himm
      rw [← h.pushed_eq ⟨hop, himm⟩]
      exact ⟨_, Operand.decode_of_immediate himm, Operand.decode_of_immediate himm'⟩
    · exact ⟨x, hx, h.decode_of_not_immediate harity hx himm⟩
  popped hop := by
    have harity : d.opcode.arity = 2 := hop ▸ rfl
    obtain ⟨x, hx⟩ := hadmits (.mode, 0) (by rw [hop]; decide)
    rw [hop] at hx
    by_cases himm : (d.operand 0).index? = some 0
    · have himm' : (e.operand 0).index? = some 0 := h.mode_eq harity ▸ himm
      exact ⟨_, _, Operand.decode_of_immediate himm, Operand.decode_of_immediate himm',
        .inr ⟨_, _, rfl, rfl⟩⟩
    · exact ⟨x, x, hx, h.decode_of_not_immediate harity hx himm, .inl rfl⟩
  number _ hpop k hk := h.index?_eq hk fun himm => hpop himm.1.1
  slot _ _ _ := ⟨rfl, .inr ⟨_, _, _, _, _, rfl, rfl⟩⟩

/-- Programs that differ in spelling say the same at every instruction. -/
theorem Program.Respells.agrees {p q : Program} (h : p.Respells q) (hp : p.verify = .ok ()) :
    p.Agrees Error.Matches q := by
  obtain ⟨ds, es, hds, hes, hforall⟩ := h.instructions
  obtain ⟨ds', hds', hadmits⟩ := Program.verify_eq_ok.mp hp
  rw [hds] at hds'
  cases hds'
  refine ⟨h.size, fun ds' hds' d hd => ?_⟩
  rw [hds] at hds'
  cases hds'
  obtain ⟨i, hi, rfl⟩ := List.mem_iff_getElem.mp hd
  have hi' : i < es.length := hforall.length_eq ▸ hi
  have hde : ds[i].Respells es[i] := hforall.get hi hi'
  have hdecode := Program.decodeAt_of_mem hes (List.getElem_mem hi')
  exact ⟨es[i], hde.offset ▸ hdecode, hde.agrees (hadmits ds[i] hd)⟩

namespace Machine

/-- Two machines whose programs differ only in the spelling of their operands cannot be told
apart: after any runs, another run for any number of steps ends in the same way on both, and
they look the same then. -/
theorem respelling_unobservable {p q : Program} (hp : p.verify = .ok ()) (hq : q.verify = .ok ())
    (hpq : p.Respells q) (capacity : Nat) (console : Console) (canvas : Canvas) :
    ∃ m₀ n₀, load p capacity console canvas = .ok m₀ ∧ load q capacity console canvas = .ok n₀ ∧
      ∀ (budgets : List Nat) (steps : Nat),
        let r := run steps (afterRuns budgets m₀)
        let r' := run steps (afterRuns budgets n₀)
        Outcome.Related Error.Matches r.1 r'.1 ∧ SameView r.2 r'.2 := by
  refine ⟨_, _, load_of_verify hp capacity console canvas,
    load_of_verify hq capacity console canvas, fun budgets steps => ?_⟩
  obtain ⟨ho, halike⟩ := runs_together Error.Matches.refl hp (hpq.agrees hp) capacity capacity
    console canvas budgets steps
  exact ⟨ho, halike.sameView⟩

/-- Two pushes, a pop that discards its value, and a call of a function without locals that
reads one.  The zeros and the value of the pop are spelled as given. -/
def spellingExample (zero discarded : Double) : List Instruction :=
  [⟨.push, [zero, .ofNat 7]⟩, ⟨.push, [.ofNat 0, .ofNat 8]⟩, ⟨.pop, [zero, discarded]⟩,
   ⟨.call, [.ofNat 66]⟩, ⟨.framed, [.ofNat 101, zero, zero]⟩, ⟨.getLocal, [zero]⟩, ⟨.endFunc, []⟩]

/-- The program ends alike with negative zeros for zeros and another value that is discarded. -/
theorem respelling_unobservable_spellingExample :
    let program (is : List Instruction) := Program.ofCode (is.flatMap Instruction.encode)
    let p := program (spellingExample .zero (.ofNat 1))
    let q := program (spellingExample .negativeZero (.ofNat 2))
    p.verify = .ok () ∧ q.verify = .ok () ∧ p.Respells q ∧
      ∃ m₀ n₀, load p 8 (.ofInput []) (.blank "" none) = .ok m₀ ∧
        load q 8 (.ofInput []) (.blank "" none) = .ok n₀ ∧
        Outcome.Related Error.Matches (run 9 (afterRuns [3] m₀)).1
          (run 9 (afterRuns [3] n₀)).1 := by
  intro program p q
  have hp : p.verify = .ok () := by decide +kernel
  have hq : q.verify = .ok () := by decide +kernel
  have harity (zero discarded : Double) : ∀ i ∈ spellingExample zero discarded, i.HasArity := by
    simp [spellingExample, Instruction.HasArity, Opcode.arity, Opcode.operands]
  have hpq : p.Respells q :=
    ⟨by decide +kernel, _, _, Program.decode_ofCode (harity _ _),
      Program.decode_ofCode (harity _ _), by decide +kernel⟩
  obtain ⟨m₀, n₀, hm₀, hn₀, hruns⟩ :=
    respelling_unobservable hp hq hpq 8 (.ofInput []) (.blank "" none)
  exact ⟨hp, hq, hpq, m₀, n₀, hm₀, hn₀, (hruns [3] 9).1⟩

end Machine

end StackMachine
