import StackMachine.Proofs.Assembly.Relist
import StackMachine.Proofs.Assembly.Verified

/-!
# Programs and their listings

A verified program has a listing.  The listing assembles exactly when the headers and end
marks of functions alternate, and then to a program with the same opcodes at the same
offsets.  The two programs are equal exactly when the operands of the first are written the
way an assembly writes them.  For an assembled program that is so but for one kind of
operand: the listing does not show the sign of a NaN.

Main results:

- Theorem `reread_eq_iff`: which instructions are read back as they were.
- Theorem `listing_roundTrip`: verified programs and their listings.
- Theorem `source_roundTrip`: assembled programs and their listings.
-/

namespace StackMachine

open Fallible
open Double (maxIndex negativeZero)
open Program (placeFrom)

namespace Assembly

/-! ## Operands that are read back as they were -/

/-- The bits of the NaN that the word for it denotes. -/
def nanBits : UInt64 := 0x7ff8000000000000

/-- The NaN that is read from a source text has one bit pattern. -/
theorem eq_nan_iff {v : Double} :
    Double.ofMagnitude false Double.nanWord = v ↔ v.bits = nanBits := by
  rcases v with ⟨bits⟩
  have hbits : Double.ofMagnitude false Double.nanWord = ⟨nanBits⟩ := by decide
  rw [hbits, Double.mk.injEq]
  exact eq_comm

/-- A header is written as an assembly writes it: with the offset past the next end mark. -/
def EndsAt (d : Placed) (finish : Nat) : Prop :=
  d.opcode.isHeader = true → (d.operand 0).index? = some finish

/-- The value of an immediate push: the one operand that may be any double. -/
def IsImmediate (d : Placed) (op : Opcode) : Prop :=
  d.opcode = op ∧ (d.operand 0).index? = some 0

/-- No operand is a negative zero, other than the value of an immediate push. -/
def NoNegativeZero (d : Placed) : Prop :=
  ∀ n < d.opcode.arity, d.operand n = negativeZero → IsImmediate d .push ∧ n = 1

/-- A pop that discards its value is written with a positive zero. -/
def DiscardsZero (d : Placed) : Prop := IsImmediate d .pop → d.operand 1 = Double.zero

/-- A NaN that is pushed is the one the word for it denotes. -/
def PushesQuietNaN (d : Placed) : Prop :=
  IsImmediate d .push → (d.operand 1).isNaN = true → (d.operand 1).bits = nanBits

/-- The operands of an instruction, by number. -/
theorem operands_eq_map {i : Instruction} (harity : i.HasArity) :
    i.operands = i.opcode.operands.zipIdx.map fun x => i.operand x.2 := by
  have hlen : i.operands.length = i.opcode.operands.length := harity
  apply List.ext_getElem?
  intro n
  rw [List.getElem?_map, List.getElem?_zipIdx]
  by_cases hlt : n < i.operands.length
  · have hlt' : n < i.opcode.operands.length := by omega
    simp [List.getElem?_eq_getElem hlt, List.getElem?_eq_getElem hlt', Instruction.operand,
      List.getD_eq_getElem?_getD]
  · have hge : i.operands.length ≤ n := by omega
    have hge' : i.opcode.operands.length ≤ n := by omega
    simp [List.getElem?_eq_none hge, List.getElem?_eq_none hge']

/-- An instruction is read back as it was exactly when its operands are. -/
theorem reread_eq_iff_operands {d : Placed} {finish : Nat} :
    d.reread finish = d.toInstruction ↔ (d.reread finish).operands = d.operands := by
  have hop : (d.reread finish).opcode = d.opcode := rfl
  constructor
  · intro heq
    rw [heq]
  · intro heq
    generalize d.reread finish = i at hop heq ⊢
    generalize d.toInstruction = j at hop heq ⊢
    cases i
    cases j
    cases hop
    cases heq
    rfl

section Reread

variable {m : CodeMap} {d : Placed} {finish : Nat}
  (hadmits : ∀ x ∈ d.opcode.operands.zipIdx, m.Admits d x.1 x.2)
include hadmits

/-- When the number that is read back for an operand is written as it was. -/
theorem ofNat_rereadNumber_iff (hfinish : finish ≤ maxIndex) {kind : OperandKind} {n : Nat}
    (hkind : kind.isPlain = true) (hx : (kind, n) ∈ d.opcode.operands.zipIdx) :
    Double.ofNat (d.rereadNumber finish kind n) = d.operand n ↔
      d.operand n ≠ negativeZero ∧ (kind = .bodyEnd → (d.operand n).index? = some finish) := by
  by_cases hend : kind = .bodyEnd
  · subst hend
    simp only [Placed.rereadNumber, if_true, forall_const]
    constructor
    · intro heq
      rw [← heq]
      exact ⟨(Double.negativeZero_ne_ofNat finish).symm, Double.index?_ofNat hfinish⟩
    · rintro ⟨hzero, hindex⟩
      exact (Double.ofNat_eq_iff hindex).mpr hzero
  · have hindex : ∃ k, (d.operand n).index? = some k := by
      have hadmitted := hadmits (kind, n) hx
      cases kind with
      | mode => cases hkind
      | location => cases hkind
      | bodyEnd => exact absurd rfl hend
      | count | slot => exact hadmitted
      | target | function | frameSize | length =>
        rcases hadmitted with ⟨k, hk, _⟩
        exact ⟨k, hk⟩
    rcases hindex with ⟨k, hk⟩
    simp [Placed.rereadNumber, hend, hk, Double.ofNat_eq_iff hk]

/-- When an instruction without a stack operand is read back as it was. -/
theorem reread_eq_iff_of_not_isStack (harity : d.HasArity) (hfinish : finish ≤ maxIndex)
    (hop : d.opcode.isStack = false) :
    d.reread finish = d.toInstruction ↔
      EndsAt d finish ∧ ∀ n < d.opcode.arity, d.operand n ≠ negativeZero := by
  have hoperands : (d.reread finish).operands =
      d.opcode.operands.zipIdx.map fun x => Double.ofNat (d.rereadNumber finish x.1 x.2) := by
    simp [Placed.reread, hop]
  have hplain {kind : OperandKind} {n : Nat} (hx : (kind, n) ∈ d.opcode.operands.zipIdx) :
      kind.isPlain = true := Opcode.isPlain_of_mem hop kind (List.fst_mem_of_mem_zipIdx hx)
  rw [reread_eq_iff_operands, hoperands, operands_eq_map harity]
  simp only [List.map_inj_left, Prod.forall]
  constructor
  · intro hall
    refine ⟨?_, ?_⟩
    · intro hheader
      have hx := mem_zipIdx_of_isHeader hheader
      exact ((ofNat_rereadNumber_iff hadmits hfinish (hplain hx) hx).mp (hall _ _ hx)).2 rfl
    · intro n hn
      have hx : (d.opcode.operands[n], n) ∈ d.opcode.operands.zipIdx :=
        List.mk_mem_zipIdx_iff_getElem?.mpr (List.getElem?_eq_getElem hn)
      exact ((ofNat_rereadNumber_iff hadmits hfinish (hplain hx) hx).mp (hall _ _ hx)).1
  · rintro ⟨hends, hzero⟩ kind n hx
    refine (ofNat_rereadNumber_iff hadmits hfinish (hplain hx) hx).mpr ⟨?_, ?_⟩
    · exact hzero n (List.getElem?_eq_some_iff.mp (List.mk_mem_zipIdx_iff_getElem?.mp hx)).1
    · rintro rfl
      rcases isHeader_of_bodyEnd hx with ⟨hheader, rfl⟩
      exact hends hheader

end Reread

section Stack

variable {d : Placed} {x : Operand}
  (hx : Operand.decode d.opcode.mnemonic d.offset (d.operand 0) (d.operand 1) = .ok x)
include hx

/-- An instruction is immediate exactly when its operand is. -/
theorem isImmediate_iff (op : Opcode) : IsImmediate d op ↔ d.opcode = op ∧ x.isImm = true := by
  refine and_congr_right fun _ => ?_
  rw [Operand.decode_eq_ok_iff] at hx
  cases x <;> simp [hx.1, Operand.isImm]

/-- When the pair that is read back for a stack operand is written as it was. -/
theorem encode_reread_iff (hop : d.opcode.isStack = true) :
    (x.reread d.opcode).encode = (d.operand 0, d.operand 1) ↔
      (d.operand 0 ≠ negativeZero ∧ (d.operand 1 = negativeZero → IsImmediate d .push)) ∧
        DiscardsZero d ∧ PushesQuietNaN d := by
  simp only [DiscardsZero, PushesQuietNaN, isImmediate_iff hx]
  by_cases himm : x.isImm = true
  · rcases x with v | r | ⟨base, displacement⟩
    · rcases Operand.decode_eq_ok_iff.mp hx with ⟨hmode, rfl⟩
      have hencode (w : Double) : (Operand.imm w).encode = (d.operand 0, d.operand 1) ↔
          d.operand 0 ≠ negativeZero ∧ w = d.operand 1 := by
        rw [← Double.ofNat_eq_iff hmode, Operand.encode, Prod.mk.injEq]
        rfl
      cases hopcode : d.opcode with
      | push =>
        by_cases hnan : (d.operand 1).isNaN = true
        · simp [Operand.reread, Operand.isImm, hnan, hencode, eq_nan_iff]
        · simp [Operand.reread, Operand.isImm, hnan, hencode]
      | pop =>
        have hzero : Double.zero ≠ negativeZero := by decide
        simp only [Operand.reread, Operand.isImm, hencode, if_true, reduceCtorEq, and_true,
          imp_false, forall_const, IsEmpty.forall_iff]
        constructor
        · rintro ⟨hmode', hvalue⟩
          exact ⟨⟨hmode', hvalue ▸ hzero⟩, hvalue.symm⟩
        · rintro ⟨⟨hmode', _⟩, hvalue⟩
          exact ⟨hmode', hvalue.symm⟩
      | _ => rw [hopcode] at hop; cases hop
    · cases himm
    · cases himm
  · have hself : x.reread d.opcode = x := by
      rcases x with v | r | ⟨base, displacement⟩
      · exact absurd rfl himm
      · rfl
      · rfl
    rw [hself, Operand.encode_eq_iff hx]
    simp [himm]

/-- A push or a pop is read back as it was when the pair of its operand is. -/
theorem reread_eq_iff_encode (harity : d.HasArity) (hop : d.opcode.isStack = true) {finish : Nat} :
    d.reread finish = d.toInstruction ↔
      (x.reread d.opcode).encode = (d.operand 0, d.operand 1) := by
  have hoperands : d.operands = [d.operand 0, d.operand 1] := by
    rw [operands_eq_map harity, Opcode.operands_of_isStack hop]
    rfl
  have hreread : (d.reread finish).operands =
      [(x.reread d.opcode).encode.1, (x.reread d.opcode).encode.2] := by
    simp [Placed.reread, hop, Placed.rereadStack, hx]
  rw [reread_eq_iff_operands, hreread, hoperands]
  simp [Prod.ext_iff]

omit hx in
/-- An instruction on the stack has no negative zero where it would be lost: its mode is none, and
its location is one only if it is the number that is pushed. -/
theorem noNegativeZero_iff (hop : d.opcode.isStack = true) :
    NoNegativeZero d ↔
      d.operand 0 ≠ negativeZero ∧ (d.operand 1 = negativeZero → IsImmediate d .push) := by
  have htwo : d.opcode.arity = 2 := by
    rw [Opcode.arity, Opcode.operands_of_isStack hop]
    rfl
  unfold NoNegativeZero
  rw [htwo]
  constructor
  · intro hall
    exact ⟨fun heq => absurd (hall 0 (by decide) heq).2 (by decide),
      fun heq => (hall 1 (by decide) heq).1⟩
  · rintro ⟨hmode, hvalue⟩ n hn heq
    obtain rfl | rfl : n = 0 ∨ n = 1 := by omega
    · exact absurd heq hmode
    · exact ⟨hvalue heq, rfl⟩

end Stack

/-- Which instructions are read back as they were. -/
theorem reread_eq_iff {m : CodeMap} {d : Placed} {finish : Nat}
    (hadmits : ∀ x ∈ d.opcode.operands.zipIdx, m.Admits d x.1 x.2) (harity : d.HasArity)
    (hfinish : finish ≤ maxIndex) :
    d.reread finish = d.toInstruction ↔
      EndsAt d finish ∧ NoNegativeZero d ∧ DiscardsZero d ∧ PushesQuietNaN d := by
  cases hop : d.opcode.isStack with
  | true =>
    rcases hadmits (.mode, 0) (by simp [Opcode.operands_of_isStack hop]) with ⟨x, hx⟩
    have hends : EndsAt d finish := by
      intro hheader
      have hmem := mem_zipIdx_of_isHeader hheader
      simp [Opcode.operands_of_isStack hop, List.zipIdx] at hmem
    rw [reread_eq_iff_encode hx harity hop, encode_reread_iff hx hop, noNegativeZero_iff hop]
    exact ⟨fun h => ⟨hends, h⟩, fun h => h.2⟩
  | false =>
    have himm {op : Opcode} (hstack : op.isStack = true) : ¬ IsImmediate d op := by
      rintro ⟨rfl, _⟩
      rw [hop] at hstack
      cases hstack
    rw [reread_eq_iff_of_not_isStack hadmits harity hfinish hop]
    refine and_congr_right fun _ => ?_
    constructor
    · intro hzero
      exact ⟨fun n hn heq => absurd heq (hzero n hn), fun h => absurd h (himm rfl),
        fun h => absurd h (himm rfl)⟩
    · rintro ⟨hzero, _⟩ n hn heq
      exact himm rfl (hzero n hn heq).1

/-! ## Programs that are read back as they were -/

/-- The opcodes are read back as they were. -/
theorem opcode_rereadAll (ds : List Placed) :
    (rereadAll ds).map (fun i => i.opcode) = ds.map fun d => d.opcode := by
  induction ds with
  | nil => rfl
  | cons d ds ih => rw [rereadAll, List.map_cons, List.map_cons, ih]; rfl

/-- Instructions are read back as they were exactly when each of them is, given the end of its
function. -/
theorem rereadAll_eq_iff {ds : List Placed} :
    rereadAll ds = ds.map Placed.toInstruction ↔
      ∀ earlier d later, ds = earlier ++ d :: later →
        d.reread ((endAfter (later.map Placed.site)).getD 0) = d.toInstruction := by
  induction ds with
  | nil => simp [rereadAll]
  | cons d ds ih =>
    rw [rereadAll, List.map_cons, List.cons_eq_cons, ih]
    constructor
    · rintro ⟨hd, hds⟩ earlier d' later hsplit
      rcases List.cons_eq_append_iff.mp hsplit with ⟨rfl, hcons⟩ | ⟨earlier', rfl, hsplit'⟩
      · cases hcons
        exact hd
      · exact hds earlier' d' later hsplit'
    · intro hall
      refine ⟨hall [] d ds rfl, ?_⟩
      intro earlier d' later hsplit
      exact hall (d :: earlier) d' later (by rw [hsplit]; rfl)

/-- An instruction that is read back has as many operands as its opcode asks for. -/
theorem hasArity_reread {m : CodeMap} {d : Placed}
    (hadmits : ∀ x ∈ d.opcode.operands.zipIdx, m.Admits d x.1 x.2) (finish : Nat) :
    (d.reread finish).HasArity := by
  cases hop : d.opcode.isStack with
  | true =>
    rcases hadmits (.mode, 0) (by simp [Opcode.operands_of_isStack hop]) with ⟨x, hx⟩
    simp [Instruction.HasArity, Placed.reread, hop, Placed.rereadStack, hx, Opcode.arity,
      Opcode.operands_of_isStack hop]
  | false => simp [Instruction.HasArity, Placed.reread, hop, Opcode.arity]

theorem hasArity_rereadAll {m : CodeMap} {ds : List Placed}
    (hadmits : ∀ d ∈ ds, ∀ x ∈ d.opcode.operands.zipIdx, m.Admits d x.1 x.2) :
    ∀ i ∈ rereadAll ds, i.HasArity := by
  induction ds with
  | nil => simp [rereadAll]
  | cons d ds ih =>
    rw [List.forall_mem_cons] at hadmits
    rw [rereadAll, List.forall_mem_cons]
    exact ⟨hasArity_reread hadmits.1 _, ih hadmits.2⟩

/-- Where instructions are placed depends on their opcodes only. -/
theorem site_placeFrom {is js : List Instruction} (offset : Nat)
    (hops : is.map (fun i => i.opcode) = js.map fun j => j.opcode) :
    (placeFrom offset is).map Placed.site = (placeFrom offset js).map Placed.site := by
  induction is generalizing offset js with
  | nil =>
    cases js with
    | nil => rfl
    | cons j js => cases hops
  | cons i is ih =>
    cases js with
    | nil => cases hops
    | cons j js =>
      rw [List.map_cons, List.map_cons, List.cons.injEq] at hops
      rw [placeFrom, placeFrom, List.map_cons, List.map_cons, hops.1, ih _ hops.2]
      simp [Placed.site, hops.1]

section Reassembled

variable {p : Program} {ds : List Placed} (hds : p.decode = .ok ds)
  (hadmits : ∀ d ∈ ds, ∀ x ∈ d.opcode.operands.zipIdx, CodeMap.Admits ⟨p.size, ds⟩ d x.1 x.2)
include hds hadmits

omit hds in
/-- The program that is read back for one. -/
theorem decode_rereadAll :
    (Program.ofCode ((rereadAll ds).flatMap Instruction.encode)).decode =
      .ok (placeFrom codeStart (rereadAll ds)) :=
  Program.decode_ofCode (hasArity_rereadAll hadmits)

omit hadmits in
/-- The instructions that are read back are where they were. -/
theorem site_rereadAll :
    (placeFrom codeStart (rereadAll ds)).map Placed.site = ds.map Placed.site := by
  have hops : (rereadAll ds).map (fun i => i.opcode) =
      (ds.map Placed.toInstruction).map fun i => i.opcode := by
    rw [opcode_rereadAll, List.map_map]
    rfl
  rw [site_placeFrom codeStart hops, ← Program.placed_of_decode hds]

/-- The program that is read back has as many bytes. -/
theorem size_rereadAll :
    (Program.ofCode ((rereadAll ds).flatMap Instruction.encode)).size = p.size := by
  have harity : ∀ i ∈ ds.map Placed.toInstruction, i.HasArity := by
    intro i hi
    rcases List.mem_map.mp hi with ⟨d, hd, rfl⟩
    exact Program.hasArity_of_mem hds hd
  have hsizes : (rereadAll ds).map (fun i => i.opcode.size) =
      (ds.map Placed.toInstruction).map fun i => i.opcode.size := by
    have hops := congrArg (List.map Opcode.size) (opcode_rereadAll ds)
    simpa [List.map_map, Function.comp_def] using hops
  rw [Program.ofCode_of_decode hds, Program.size_ofCode, Program.size_ofCode,
    Instruction.length_flatMap_encode (hasArity_rereadAll hadmits),
    Instruction.length_flatMap_encode harity, hsizes]

/-- The program that is read back is the one that was listed when each instruction is. -/
theorem ofCode_rereadAll_eq_iff :
    Program.ofCode ((rereadAll ds).flatMap Instruction.encode) = p ↔
      ∀ earlier d later, ds = earlier ++ d :: later →
        d.reread ((endAfter (later.map Placed.site)).getD 0) = d.toInstruction := by
  rw [← rereadAll_eq_iff]
  constructor
  · intro heq
    have hdecode := decode_rereadAll hadmits
    rw [heq, hds] at hdecode
    have hplaced : ds = placeFrom codeStart (rereadAll ds) := Except.ok.inj hdecode
    calc rereadAll ds
        = (placeFrom codeStart (rereadAll ds)).map Placed.toInstruction :=
          (Program.toInstruction_placeFrom _ _).symm
      _ = ds.map Placed.toInstruction := by rw [← hplaced]
  · intro heq
    rw [heq, ← Program.ofCode_of_decode hds]

omit hadmits in
/-- The end of a function is within the program. -/
theorem getD_endAfter_le {earlier later : List Placed} {d : Placed}
    (hsplit : ds = earlier ++ d :: later) :
    (endAfter (later.map Placed.site)).getD 0 ≤ p.size := by
  cases hend : endAfter (later.map Placed.site) with
  | none => exact Nat.zero_le _
  | some finish =>
    rcases Option.map_eq_some_iff.mp hend with ⟨_, hfind, rfl⟩
    rcases List.mem_map.mp (List.mem_of_find?_eq_some hfind) with ⟨mark, hmark, rfl⟩
    exact Program.next_le_size hds (by simp [hsplit, hmark])

omit hds in
/-- A header ends where the function is found to end exactly when its operand is the offset
past the next end mark. -/
theorem endsAt_iff {earlier later : List Placed} {d : Placed}
    (hsplit : ds = earlier ++ d :: later) :
    EndsAt d ((endAfter (later.map Placed.site)).getD 0) ↔
      (d.opcode.isHeader = true → (d.operand 0).index? = endAfter (later.map Placed.site)) := by
  refine forall_congr' fun hheader => ?_
  have hd : d ∈ ds := by simp [hsplit]
  rcases hadmits d hd _ (mem_zipIdx_of_isHeader hheader) with ⟨t, ht, hstart, _⟩
  cases hend : endAfter (later.map Placed.site) with
  | some finish => rfl
  | none =>
    have hpos : 0 < codeStart := by decide
    simp only [ht, Option.getD_none, Option.some.injEq, reduceCtorEq, iff_false]
    omega

end Reassembled

/-! ## Verified programs -/

/-- The listing of a verified program assembles exactly when headers and end marks alternate.
What it assembles to has the same opcodes in the same places, and is the program itself
exactly when the ends of its functions are past the next end marks, no operand other than a
pushed immediate is a negative zero, discarded values are zero, and pushed NaNs quiet. -/
theorem listing_roundTrip {p : Program} (hp : p.verify = .ok ()) (hmax : p.size ≤ 2 ^ 53) :
    ∃ ds text, p.decode = .ok ds ∧ p.listing = .ok text ∧
      ((∃ q, assemble text = .ok q) ↔ Alternates (ds.map fun d => d.opcode)) ∧
      ∀ q, assemble text = .ok q →
        q.size = p.size ∧
        (∃ es, q.decode = .ok es ∧ es.map Placed.site = ds.map Placed.site) ∧
        (q = p ↔
          (∀ earlier d later, ds = earlier ++ d :: later → d.opcode.isHeader = true →
            (d.operand 0).index? = endAfter (later.map Placed.site)) ∧
          ∀ d ∈ ds, NoNegativeZero d ∧ DiscardsZero d ∧ PushesQuietNaN d) := by
  rcases Program.verify_eq_ok.mp hp with ⟨ds, hds, hadmits⟩
  rcases assemble_listing hds hadmits with ⟨text, htext, halternates, hassemble⟩
  refine ⟨ds, text, hds, htext, ⟨halternates, fun h => ⟨_, hassemble h⟩⟩, ?_⟩
  intro q hq
  rw [hassemble (halternates ⟨q, hq⟩)] at hq
  cases hq
  refine ⟨size_rereadAll hds hadmits,
    ⟨_, decode_rereadAll hadmits, site_rereadAll hds⟩, ?_⟩
  rw [ofCode_rereadAll_eq_iff hds hadmits]
  have heach {earlier later : List Placed} {d : Placed} (hsplit : ds = earlier ++ d :: later) :
      d.reread ((endAfter (later.map Placed.site)).getD 0) = d.toInstruction ↔
        (d.opcode.isHeader = true → (d.operand 0).index? = endAfter (later.map Placed.site)) ∧
          NoNegativeZero d ∧ DiscardsZero d ∧ PushesQuietNaN d := by
    have hd : d ∈ ds := by simp [hsplit]
    rw [reread_eq_iff (hadmits d hd) (Program.hasArity_of_mem hds hd)
      ((getD_endAfter_le hds hsplit).trans hmax), endsAt_iff hadmits hsplit]
  constructor
  · intro hall
    refine ⟨fun earlier d later hsplit => ((heach hsplit).mp (hall _ _ _ hsplit)).1, ?_⟩
    intro d hd
    rcases List.append_of_mem hd with ⟨earlier, later, hsplit⟩
    exact ((heach hsplit).mp (hall _ _ _ hsplit)).2
  · rintro ⟨hends, hwritten⟩ earlier d later hsplit
    exact (heach hsplit).mpr ⟨hends _ _ _ hsplit, hwritten d (by simp [hsplit])⟩

/-- A function without instructions, and a jump to its header. -/
def loopExample : Program :=
  .ofCode (List.flatMap Instruction.encode
    [⟨.func, [.ofNat 16]⟩, ⟨.endFunc, []⟩, ⟨.jump, [.ofNat 6]⟩])

/-- The program, which jumps back to an empty function, verifies and has a listing. -/
theorem listing_loopExample :
    loopExample.verify = .ok () ∧ loopExample.size ≤ 2 ^ 53 ∧
      ∃ text, loopExample.listing = .ok text := by
  have hp : loopExample.verify = .ok () := by decide +kernel
  have hmax : loopExample.size ≤ 2 ^ 53 := by decide +kernel
  rcases listing_roundTrip hp hmax with ⟨_, text, _, htext, _⟩
  exact ⟨hp, hmax, text, htext⟩

/-! ## Assembled programs -/

/-- The NaN with a sign that source text may denote. -/
def negativeNaN : Double := Double.ofMagnitude true Double.nanWord

/-- A numeral is read back from its text unless it denotes the NaN with a sign. -/
theorem quiet_iff_of_ofText? {text : String} {v : Double} (hv : Double.ofText? text = some v) :
    (v.isNaN = true → Double.ofMagnitude false Double.nanWord = v) ↔ v ≠ negativeNaN := by
  have hne : Double.ofMagnitude false Double.nanWord ≠ negativeNaN := by decide
  have hnegative : negativeNaN.isNaN = true := by decide
  constructor
  · rintro hquiet rfl
    exact hne (hquiet hnegative)
  · intro hsign hnan
    have heq := Double.eq_nan_of_ofText? hv hnan
    cases hneg : v.negative with
    | false => rw [heq, hneg]
    | true =>
      rw [hneg] at heq
      exact absurd heq hsign

/-- The stack operands of source texts, and which of them are read back as they were. -/
theorem reread_of_resolveStackOperand {op : Opcode} {token : Option String} {x : Operand}
    (hop : op.isStack = true) (hx : resolveStackOperand op token = .ok x) :
    x.reread op = x ↔ (op = .push → x ≠ .imm negativeNaN) := by
  cases x with
  | reg r => simp [Operand.reread]
  | mem base displacement => simp [Operand.reread]
  | imm v =>
    cases token with
    | none =>
      cases hx
      have hzero : Double.zero.isNaN = false := by decide
      have hne : Double.zero ≠ negativeNaN := by decide
      simp [Operand.reread, hzero, hne]
    | some token =>
      simp only [resolveStackOperand, bind_eq_ok] at hx
      rcases hx with ⟨y, hparse, hy⟩
      cases y with
      | reg r => cases hy
      | mem base displacement => cases hy
      | imm w =>
        by_cases hpop : op = .pop
        · simp [hpop] at hy
        · have hpush : op = .push := by
            cases op <;> simp_all [Opcode.isStack]
          simp only [hpop, if_false, pure_eq_ok, Operand.imm.injEq] at hy
          subst hy
          have hquiet := quiet_iff_of_ofText? (Operand.ofText?_of_parse hparse)
          simp only [Operand.reread, hpush, reduceCtorEq, if_false, forall_const, ne_eq,
            Operand.imm.injEq]
          rw [← ne_eq, ← hquiet]
          by_cases hnan : w.isNaN = true <;> simp [hnan]

/-- Which instructions of an assembled program are read back as they were. -/
theorem reread_of_realizes {source : String} {l : Layout} {fs : List (String × Extent)}
    {p : Program} {ds : List Placed} (hl : layout source = .ok l) (hfs : l.routines = .ok fs)
    (hds : p.decode = .ok ds) (hsize : p.size = l.length) (hmax : p.size ≤ maxIndex)
    (hreal : Realizes l fs ds) {earlier later : List Placed} {d : Placed}
    (hsplit : ds = earlier ++ d :: later) :
    d.reread ((endAfter (later.map Placed.site)).getD 0) = d.toInstruction ↔
      (IsImmediate d .push → d.operand 1 ≠ negativeNaN) := by
  have hd : d ∈ ds := by simp [hsplit]
  have hadmits := admits_of_realizes hl hfs hds hsize hmax hreal hd
  have harity := Program.hasArity_of_mem hds hd
  have hsplit' := hreal
  rw [Realizes, hsplit] at hsplit'
  rcases split_of_forall₂ hsplit' with ⟨earlier', line, later', hlines, ⟨hsite, hemit⟩, hlater⟩
  have hop : d.opcode = line.opcode := congrArg Prod.fst hsite
  cases hstack : d.opcode.isStack with
  | true =>
    rw [hop] at hstack
    rcases (Scope.emit_eq_ok_of_isStack hstack).mp hemit with ⟨_, _, x, hx, hvalues⟩
    rw [← hop] at hx hstack
    have hmode : d.operand 0 = x.encode.1 := by simp [Instruction.operand, hvalues]
    have hvalue : d.operand 1 = x.encode.2 := by simp [Instruction.operand, hvalues]
    have hdecode : Operand.decode d.opcode.mnemonic d.offset (d.operand 0) (d.operand 1) =
        .ok x := by
      rw [hmode, hvalue]
      exact Operand.decode_encode _ _ x
    have hself : (x.reread d.opcode).encode = (d.operand 0, d.operand 1) ↔
        x.reread d.opcode = x := by
      rw [hmode, hvalue]
      exact ⟨fun heq => Operand.encode_inj heq, fun heq => by rw [heq]⟩
    rw [reread_eq_iff_encode hdecode harity hstack, hself,
      reread_of_resolveStackOperand hstack hx, isImmediate_iff hdecode]
    cases x with
    | imm v => simp [Operand.isImm, hvalue, Operand.encode]
    | reg r => simp [Operand.isImm]
    | mem base displacement => simp [Operand.isImm]
  | false =>
    have himm : ¬ IsImmediate d .push := by
      rintro ⟨hpush, _⟩
      rw [hpush] at hstack
      cases hstack
    have hwritten := (Scope.emit_eq_ok (hop ▸ hstack)).mp hemit
    rw [reread_eq_iff_of_not_isStack hadmits harity ((getD_endAfter_le hds hsplit).trans hmax) hstack]
    refine ⟨fun _ h => absurd h himm, fun _ => ⟨?_, ?_⟩⟩
    · intro hheader
      rw [hop] at hheader
      rcases hwritten.2.2.2 _ (mem_zipIdx_of_isHeader hheader) with ⟨n, hn, hvalue⟩
      have hend := bodyEnd_of_names hfs hlines hheader hn
      have hle := (bounds_of_endAfter hl hlines hend).2.1
      rw [map_site_eq hlater, hend, hvalue]
      exact Double.index?_ofNat ((hle.trans_eq hsize.symm).trans hmax)
    · intro n hn
      rw [hop] at hn
      have hx : (line.opcode.operands[n], n) ∈ line.opcode.operands.zipIdx :=
        List.mk_mem_zipIdx_iff_getElem?.mpr (List.getElem?_eq_getElem hn)
      rcases hwritten.2.2.2 _ hx with ⟨k, _, hvalue⟩
      exact hvalue ▸ (Double.negativeZero_ne_ofNat k).symm

/-- The program of a source text has a listing, which assembles, and to the same program
exactly when no NaN with a sign is pushed. -/
theorem source_roundTrip {source : String} {p : Program} (hp : assemble source = .ok p)
    (hmax : p.size ≤ 2 ^ 53) :
    ∃ ds text q, p.decode = .ok ds ∧ p.listing = .ok text ∧ assemble text = .ok q ∧
      (q = p ↔ ∀ d ∈ ds, IsImmediate d .push → d.operand 1 ≠ negativeNaN) := by
  rcases placed_of_assemble hp with ⟨l, fs, ds, hl, hfs, hds, hsize, hreal⟩
  have hadmits : ∀ d ∈ ds, ∀ x ∈ d.opcode.operands.zipIdx,
      CodeMap.Admits ⟨p.size, ds⟩ d x.1 x.2 :=
    fun d hd => admits_of_realizes hl hfs hds hsize hmax hreal hd
  have halternates : Alternates (ds.map fun d => d.opcode) := by
    rw [map_opcode_of_site (map_site_eq hreal), alternates_iff]
    exact alternates_of_collectRoutines hfs
  rcases assemble_listing hds hadmits with ⟨text, htext, _, hassemble⟩
  refine ⟨ds, text, _, hds, htext, hassemble halternates, ?_⟩
  rw [ofCode_rereadAll_eq_iff hds hadmits]
  constructor
  · intro hall d hd
    rcases List.append_of_mem hd with ⟨earlier, later, hsplit⟩
    exact (reread_of_realizes hl hfs hds hsize hmax hreal hsplit).mp (hall _ _ _ hsplit)
  · intro hall earlier d later hsplit
    exact (reread_of_realizes hl hfs hds hsize hmax hreal hsplit).mpr
      (hall d (by simp [hsplit]))

/-- A push of the NaN with the given sign. -/
def pushNaN (negative : Bool) : Program :=
  .ofCode (Instruction.encode ⟨.push, [.zero, .ofMagnitude negative Double.nanWord]⟩)

/-- The listing of the program assembles. -/
theorem listing_pushNaN :
    ∃ text q, (pushNaN true).listing = .ok text ∧ assemble text = .ok q := by
  have hp : assemble "PUSH -nan" = .ok (pushNaN true) := by decide +kernel
  have hmax : (pushNaN true).size ≤ 2 ^ 53 := by decide +kernel
  rcases source_roundTrip hp hmax with ⟨_, text, q, _, htext, hq, _⟩
  exact ⟨text, q, htext, hq⟩

/-- The sign of a NaN is lost: the listing of this program assembles to another one. -/
theorem pushNaN_ne_of_listing :
    assemble "PUSH -nan" = .ok (pushNaN true) ∧ (pushNaN true).size ≤ 2 ^ 53 ∧
      (pushNaN true).listing = .ok "PUSH NaN\n" ∧
      assemble "PUSH NaN\n" = .ok (pushNaN false) ∧ pushNaN false ≠ pushNaN true := by
  refine ⟨?_, ?_, ?_, ?_, ?_⟩ <;> decide +kernel

end Assembly

end StackMachine
