import StackMachine.Proofs.Double.Value
import StackMachine.Proofs.Operand.Codec
import StackMachine.Proofs.Program.Verified

/-!
# Well-formed streams

Which byte strings are programs that may run, said without the checks and their order: a
stream is the encodings of some instructions one after the other, and each of them is
well-formed where it stands.  Verification accepts exactly these streams.  It refuses any
other one with an error at the first place where no instruction can be read, and if there is
no such place, at the first instruction that is not well-formed.

Main definition:

- `Placed.WellFormed`, what each instruction asks of its operands.

Main results:

- Theorem `Placed.wellFormed_iff`: verification admits the operands of exactly the
  well-formed instructions.
- Theorem `CodeMap.offset_of_checkInstruction`: a check fails at the instruction it is about.
- Theorem `Program.verify_ofCode`: which streams verification accepts, and where it refuses
  the others.
-/

namespace StackMachine

open Fallible

/-! ## Well-formed instructions -/

/-- The operands of a push or a pop: an immediate of any value, the number of a register, or
an address, whose quotient by five is its displacement. -/
def Placed.HasStackOperand (d : Placed) : Prop :=
  (d.operand 0).Denotes 0 ∨
  (d.operand 0).Denotes 1 ∧ (∃ v, (d.operand 1).Denotes v ∧ v < 4) ∨
  (d.operand 0).Denotes 2 ∧ ∃ v, (d.operand 1).Denotes v ∧ v / 5 < 10000

/-- The first operand of a header: an offset past the header, at an instruction or at the
end of a program of the given length. -/
def Placed.HasBodyEnd (length : Nat) (ds : List Placed) (d : Placed) : Prop :=
  ∃ t, (d.operand 0).Denotes t ∧ d.offset < t ∧ (t = length ∨ ∃ e ∈ ds, e.offset = t)

/-- What an instruction asks of its operands, in a program of the given length with the given
instructions. -/
def Placed.WellFormed (length : Nat) (ds : List Placed) (d : Placed) : Prop :=
  match d.opcode with
  | .push | .pop => d.HasStackOperand
  | .jump | .branch _ =>
    ∃ t, (d.operand 0).Denotes t ∧ 6 ≤ t ∧ t < length ∧ ∃ e ∈ ds, e.offset = t
  | .call => ∃ e ∈ ds, (d.operand 0).Denotes e.offset ∧ (e.opcode = .func ∨ e.opcode = .framed)
  | .func => d.HasBodyEnd length ds
  | .framed =>
    d.HasBodyEnd length ds ∧ (∃ args, (d.operand 1).Denotes args ∧ args ≤ 4096) ∧
      ∃ locals, (d.operand 2).Denotes locals ∧ locals ≤ 4096
  | .getLocal | .setLocal | .getArg => ∃ slot, (d.operand 0).Denotes slot
  | .draw =>
    (∃ width, (d.operand 0).Denotes width) ∧ (∃ height, (d.operand 1).Denotes height) ∧
      ∃ length, (d.operand 2).Denotes length ∧ length < 10000
  | .stop | .binary _ | .input | .output | .unary _ | .endFunc | .ret | .leave => True

/-- A pair of doubles stands for an operand exactly if it has one of the three forms. -/
theorem Placed.exists_operand_iff {name : String} {offset : Nat} {d : Placed} :
    (∃ x, Operand.decode name offset (d.operand 0) (d.operand 1) = .ok x) ↔ d.HasStackOperand := by
  constructor
  · rintro ⟨x, hx⟩
    have hforms := Operand.decode_eq_ok_iff.mp hx
    cases x with
    | imm v => exact Or.inl (Double.index?_eq_some_iff.mp hforms.1)
    | reg r =>
      exact Or.inr (Or.inl ⟨Double.index?_eq_some_iff.mp hforms.1, r.index,
        Double.index?_eq_some_iff.mp hforms.2, r.index_lt⟩)
    | mem base displacement =>
      refine Or.inr (Or.inr ⟨Double.index?_eq_some_iff.mp hforms.1, _,
        Double.index?_eq_some_iff.mp hforms.2, ?_⟩)
      exact (Operand.addressCode_div base displacement).trans_lt displacement.isLt
  · rintro (hmode | ⟨hmode, v, hv, hlt⟩ | ⟨hmode, v, hv, hlt⟩)
    · exact ⟨.imm (d.operand 1),
        Operand.decode_eq_ok_iff.mpr ⟨Double.index?_eq_some_iff.mpr hmode, rfl⟩⟩
    · obtain ⟨r, hr⟩ : ∃ r, Register.ofIndex? v = some r :=
        ⟨Register.all[v], List.getElem?_eq_getElem hlt⟩
      refine ⟨.reg r, Operand.decode_eq_ok_iff.mpr ⟨Double.index?_eq_some_iff.mpr hmode, ?_⟩⟩
      rw [Register.index_of_ofIndex? hr]
      exact Double.index?_eq_some_iff.mpr hv
    · have hcode : Operand.addressCode (Operand.baseOfCode (v % Operand.stride))
          ⟨v / Operand.stride, hlt⟩ = v := by
        rw [Operand.addressCode, Operand.baseCode_baseOfCode (Nat.mod_lt _ (by decide))]
        exact Nat.mod_add_div' v Operand.stride
      refine ⟨.mem (Operand.baseOfCode (v % Operand.stride)) ⟨v / Operand.stride, hlt⟩,
        Operand.decode_eq_ok_iff.mpr ⟨Double.index?_eq_some_iff.mpr hmode, ?_⟩⟩
      rw [hcode]
      exact Double.index?_eq_some_iff.mpr hv

theorem Opcode.isHeader_iff {op : Opcode} : op.isHeader = true ↔ op = .func ∨ op = .framed := by
  cases op <;> simp [Opcode.isHeader]

section Admits

variable {p : Program} {ds : List Placed} {d : Placed}

/-- The end of a body is admitted exactly when it is past the header, at an instruction or at the
end of the program. -/
theorem Placed.admits_bodyEnd_iff (hds : p.decode = .ok ds) (hd : d ∈ ds) :
    CodeMap.Admits ⟨p.size, ds⟩ d .bodyEnd 0 ↔ d.HasBodyEnd p.size ds := by
  have hstart := Program.codeStart_le_of_mem hds hd
  simp only [CodeMap.Admits, Placed.HasBodyEnd, Double.index?_eq_some_iff,
    CodeMap.isBoundary_eq_true]
  refine exists_congr fun t => and_congr_right fun _ => ?_
  constructor
  · rintro ⟨_, _, hlt, hend⟩
    exact ⟨hlt, hend⟩
  · rintro ⟨hlt, hend⟩
    refine ⟨by omega, ?_, hlt, hend⟩
    rcases hend with rfl | ⟨e, he, rfl⟩
    · exact Nat.le_refl _
    · have hnext := Program.next_le_size hds he
      exact Nat.le_trans (Nat.le_add_right _ _) hnext

/-- The target of a call is admitted exactly when it is the offset of a header. -/
theorem Placed.admits_function_iff (hds : p.decode = .ok ds) :
    CodeMap.Admits ⟨p.size, ds⟩ d .function 0 ↔
      ∃ e ∈ ds, (d.operand 0).Denotes e.offset ∧ (e.opcode = .func ∨ e.opcode = .framed) := by
  simp only [CodeMap.Admits, Double.index?_eq_some_iff, CodeMap.isHeader_eq_true,
    Opcode.isHeader_iff]
  constructor
  · rintro ⟨t, ht, _, _, e, he, rfl, hop⟩
    exact ⟨e, he, ht, hop⟩
  · rintro ⟨e, he, ht, hop⟩
    have hnext := Program.next_le_size hds he
    have hpos := e.opcode.size_pos
    rw [Placed.next] at hnext
    exact ⟨e.offset, ht, Program.codeStart_le_of_mem hds he, by omega, e, he, rfl, hop⟩

theorem forall_mem_zipIdx_nil {P : OperandKind × Nat → Prop} {n : Nat} :
    (∀ x ∈ ([] : List OperandKind).zipIdx n, P x) ↔ True := by
  simp

/-- What is asked of all operands is asked of the first one and of the others. -/
theorem forall_mem_zipIdx_cons {P : OperandKind × Nat → Prop} {kind : OperandKind}
    {kinds : List OperandKind} {n : Nat} :
    (∀ x ∈ (kind :: kinds).zipIdx n, P x) ↔
      P (kind, n) ∧ ∀ x ∈ kinds.zipIdx (n + 1), P x := by
  rw [List.zipIdx_cons, List.forall_mem_cons]

/-- Verification admits the operands of exactly the well-formed instructions. -/
theorem Placed.wellFormed_iff (hds : p.decode = .ok ds) (hd : d ∈ ds) :
    d.WellFormed p.size ds ↔
      ∀ x ∈ d.opcode.operands.zipIdx, CodeMap.Admits ⟨p.size, ds⟩ d x.1 x.2 := by
  unfold Placed.WellFormed
  cases hop : d.opcode with
  | push | pop =>
    simp only [Opcode.operands, forall_mem_zipIdx_cons, forall_mem_zipIdx_nil, and_true,
      CodeMap.Admits, Placed.exists_operand_iff]
  | jump | branch _ =>
    simp only [Opcode.operands, forall_mem_zipIdx_cons, forall_mem_zipIdx_nil, and_true,
      CodeMap.Admits, Double.index?_eq_some_iff, CodeMap.isBoundary_eq_true]
    rfl
  | call =>
    simp only [Opcode.operands, forall_mem_zipIdx_cons, forall_mem_zipIdx_nil, and_true,
      Placed.admits_function_iff hds]
  | func =>
    simp only [Opcode.operands, forall_mem_zipIdx_cons, forall_mem_zipIdx_nil, and_true,
      Placed.admits_bodyEnd_iff hds hd]
  | framed =>
    simp only [Opcode.operands, forall_mem_zipIdx_cons, forall_mem_zipIdx_nil, and_true,
      Placed.admits_bodyEnd_iff hds hd]
    simp only [CodeMap.Admits, Double.index?_eq_some_iff, maxFrameSlots]
  | getLocal | setLocal | getArg =>
    simp only [Opcode.operands, forall_mem_zipIdx_cons, forall_mem_zipIdx_nil, and_true,
      CodeMap.Admits, Double.index?_eq_some_iff]
  | draw =>
    simp only [Opcode.operands, forall_mem_zipIdx_cons, forall_mem_zipIdx_nil, and_true,
      CodeMap.Admits, Double.index?_eq_some_iff, ramSize]
  | stop | binary _ | input | output | unary _ | endFunc | ret | leave =>
    simp only [Opcode.operands, forall_mem_zipIdx_nil]

end Admits

/-! ## Where verification fails -/

/-- A stack operand that cannot be decoded is reported at its instruction. -/
theorem Operand.offset_of_decode {name : String} {offset : Nat} {mode value : Double}
    {e : CodeError} (he : Operand.decode name offset mode value = .error e) :
    e.offset = offset := by
  unfold Operand.decode at he
  split at he
  · cases he
    rfl
  · cases he
  · split at he <;> cases he
    rfl
  · split at he
    · cases he
      rfl
    · split at he <;> cases he
      rfl

namespace CodeMap

variable {m : CodeMap} {d : Placed} {e : CodeError}

/-- So is a number that is no index. -/
theorem offset_of_checkNatural {value : Double} (he : checkNatural d value = .error e) :
    e.offset = d.offset := by
  unfold checkNatural at he
  split at he <;> cases he
  rfl

/-- So is an offset outside of the code. -/
theorem offset_of_checkOffset {value : Double} {bound : Nat}
    (he : m.checkOffset d value bound = .error e) : e.offset = d.offset := by
  unfold checkOffset at he
  split at he
  · split at he <;> cases he
    rfl
  · cases he
    rfl

/-- A check of an operand fails at the instruction. -/
theorem offset_of_checkOperand {kind : OperandKind} {n : Nat}
    (he : m.checkOperand d kind n = .error e) : e.offset = d.offset := by
  cases kind with
  | location => cases he
  | mode => exact Operand.offset_of_decode (discard_eq_error.mp he)
  | target | function | bodyEnd =>
    rcases bind_eq_error.mp he with hrange | ⟨t, _, hguard⟩
    · exact offset_of_checkOffset hrange
    · rw [← guard_eq_error hguard]
      rfl
  | count | slot => exact offset_of_checkNatural (discard_eq_error.mp he)
  | frameSize | length =>
    rcases bind_eq_error.mp he with hnatural | ⟨k, _, hguard⟩
    · exact offset_of_checkNatural hnatural
    · rw [← guard_eq_error hguard]
      rfl

/-- A check fails at the instruction it is about. -/
theorem offset_of_checkInstruction (he : m.checkInstruction d = .error e) :
    e.offset = d.offset := by
  rcases forM_eq_error he with ⟨_, _, _, _, _, he'⟩
  exact offset_of_checkOperand he'

end CodeMap

namespace Program

/-- A refused program has an error at the first place where no instruction can be read, or at
the first instruction that is not well-formed. -/
theorem offset_of_verify {p : Program} {e : CodeError} (he : p.verify = .error e) :
    ∃ (is : List Instruction) (rest : List UInt8), (∀ i ∈ is, i.HasArity) ∧
      p.bytes.toList.drop codeStart = is.flatMap Instruction.encode ++ rest ∧
      e.offset = codeStart + (is.flatMap Instruction.encode).length ∧
      (Unreadable rest ∨ ∃ i later, (∀ j ∈ i :: later, j.HasArity) ∧
        rest = (i :: later).flatMap Instruction.encode ∧
        ¬ Placed.WellFormed p.size (placeFrom codeStart (is ++ i :: later)) ⟨i, e.offset⟩ ∧
        ∀ d ∈ placeFrom codeStart is,
          d.WellFormed p.size (placeFrom codeStart (is ++ i :: later))) := by
  rcases bind_eq_error.mp he with hdecode | ⟨ds, hds, hcheck⟩
  · obtain ⟨ds, hds⟩ := decode_eq_error_iff.mp hdecode
    obtain ⟨harity, stop, hstop, hlt, hat, hbytes⟩ := encode_of_decodeFrom_error hds
    obtain ⟨hoffset, hunreadable⟩ := unreadable_of_decodeAt hlt hat
    refine ⟨ds.map Placed.toInstruction, _, ?_, hbytes, hoffset.trans hstop, Or.inl hunreadable⟩
    rwa [List.forall_mem_map]
  · obtain ⟨earlier, d, later, rfl, hearlier, hd⟩ := forM_eq_error hcheck
    obtain ⟨hplaced, harity, hbytes⟩ := encode_of_decodeFrom (decode_eq_ok_iff.mp hds)
    obtain ⟨hplacedEarlier, hoffset⟩ := placed_of_append hplaced
    have hall : placeFrom codeStart (earlier.map Placed.toInstruction ++
        d.toInstruction :: later.map Placed.toInstruction) = earlier ++ d :: later := by
      rw [← List.map_cons, ← List.map_append]
      exact hplaced.symm
    have harity' : ∀ i ∈ earlier.map Placed.toInstruction, i.HasArity := by
      rw [List.forall_mem_map]
      exact fun d hd => harity d (List.mem_append_left _ hd)
    have hat : e.offset = d.offset := CodeMap.offset_of_checkInstruction hd
    refine ⟨earlier.map Placed.toInstruction, _, harity', ?_, ?_, Or.inr
      ⟨d.toInstruction, later.map Placed.toInstruction, ?_, rfl, ?_, ?_⟩⟩
    · rw [hbytes, List.map_append, List.flatMap_append, List.map_cons]
    · rw [hat, hoffset, Instruction.length_flatMap_encode harity']
    · rw [← List.map_cons, List.forall_mem_map]
      exact fun d hd => harity d (List.mem_append_right _ hd)
    · rw [hall, hat]
      intro hwell
      have hok := CodeMap.checkInstruction_eq_ok.mpr
        ((Placed.wellFormed_iff hds (by simp)).mp hwell)
      rw [hd] at hok
      cases hok
    · rw [← hplacedEarlier, hall]
      intro c hc
      exact (Placed.wellFormed_iff hds (List.mem_append_left _ hc)).mpr
        (CodeMap.checkInstruction_eq_ok.mp (hearlier c hc))

/-- Verification accepts the streams that are encodings of well-formed instructions, and no
others.  It refuses any other stream with an error at the first place where no instruction
can be read, and if all of it can be read, at the first instruction that is not
well-formed. -/
theorem verify_ofCode (code : List UInt8) :
    ((ofCode code).verify = .ok () ↔ ∃ is : List Instruction, (∀ i ∈ is, i.HasArity) ∧
      code = is.flatMap Instruction.encode ∧
      ∀ d ∈ placeFrom codeStart is, d.WellFormed (6 + code.length) (placeFrom codeStart is)) ∧
    ∀ e, (ofCode code).verify = .error e →
      ∃ (is : List Instruction) (rest : List UInt8), (∀ i ∈ is, i.HasArity) ∧
        code = is.flatMap Instruction.encode ++ rest ∧
        (Error.code e).offset? = some (6 + (is.flatMap Instruction.encode).length) ∧
        (Unreadable rest ∨ ∃ i later, (∀ j ∈ i :: later, j.HasArity) ∧
          rest = (i :: later).flatMap Instruction.encode ∧
          ¬ Placed.WellFormed (6 + code.length) (placeFrom codeStart (is ++ i :: later))
            ⟨i, 6 + (is.flatMap Instruction.encode).length⟩ ∧
          ∀ d ∈ placeFrom codeStart is,
            d.WellFormed (6 + code.length) (placeFrom codeStart (is ++ i :: later))) := by
  have hsize : (ofCode code).size = 6 + code.length := size_ofCode code
  have hdrop := drop_ofCode code
  refine ⟨⟨fun hok => ?_, ?_⟩, fun e he => ?_⟩
  · obtain ⟨ds, hds, hadmits⟩ := verify_eq_ok.mp hok
    obtain ⟨hplaced, harity, hbytes⟩ := encode_of_decodeFrom (decode_eq_ok_iff.mp hds)
    refine ⟨ds.map Placed.toInstruction, ?_, hdrop.symm.trans hbytes, ?_⟩
    · rwa [List.forall_mem_map]
    · rw [← hplaced, ← hsize]
      exact fun d hd => (Placed.wellFormed_iff hds hd).mpr (hadmits d hd)
  · rintro ⟨is, harity, rfl, hwell⟩
    have hds := decode_ofCode harity
    rw [← hsize] at hwell
    exact verify_eq_ok.mpr
      ⟨_, hds, fun d hd => (Placed.wellFormed_iff hds hd).mp (hwell d hd)⟩
  · obtain ⟨is, rest, harity, hbytes, hoffset, hwhy⟩ := offset_of_verify he
    rw [hoffset, hsize] at hwhy
    exact ⟨is, rest, harity, hdrop.symm.trans hbytes, congrArg some hoffset, hwhy⟩

/-- A program of one jump to the given offset. -/
def jumpExample (target : Nat) : List UInt8 := Instruction.encode ⟨.jump, [.ofNat target]⟩

/-- A jump to its own start verifies, and one into its own middle is reported where it starts. -/
theorem verify_jumpExample :
    ((ofCode (jumpExample 6)).verify = .ok () ∧
      ∃ is : List Instruction, jumpExample 6 = is.flatMap Instruction.encode) ∧
    (ofCode (jumpExample 7)).verify = .error (.misalignedTarget "JMP" 6 7) ∧
      ∃ (is : List Instruction) (rest : List UInt8),
        jumpExample 7 = is.flatMap Instruction.encode ++ rest ∧
        some 6 = some (6 + (is.flatMap Instruction.encode).length) := by
  have hok : (ofCode (jumpExample 6)).verify = .ok () := by decide +kernel
  have herror : (ofCode (jumpExample 7)).verify = .error (.misalignedTarget "JMP" 6 7) := by
    decide +kernel
  obtain ⟨is, _, hcode, _⟩ := (verify_ofCode _).1.mp hok
  obtain ⟨js, rest, _, hcode', hoffset, _⟩ := (verify_ofCode _).2 _ herror
  exact ⟨⟨hok, is, hcode⟩, herror, js, rest, hcode', hoffset⟩

end Program

end StackMachine
