import StackMachine.Proofs.Decimal.ReadBack
import StackMachine.Proofs.Operand.Grammar

/-!
# The forms of a stack operand

A stack operand stands in the stream as a pair of doubles and in source text as a token.
Both forms give the operand back.  The pair of an operand is unique up to the sign of
zeros, and the token loses nothing but the sign and the payload of a NaN.

Main results:

- Theorem `Operand.decode_eq_ok_iff`: which pairs of doubles stand for which operand.
- Theorem `Operand.decode_encode`: the pair of an operand stands for it.
- Theorem `Operand.encode_eq_iff`: a pair that stands for an operand is its pair unless a
  negative zero occurs in it.
- Theorems `Operand.parse_toText`, `Operand.parse_toText_of_isNaN`: what the text of an
  operand denotes.
- Theorem `Operand.forms_agree`: operands, their pairs and their texts agree.
-/

namespace StackMachine

open Double (negativeZero maxIndex)

/-! ## Registers and bases -/

namespace Register

theorem ofIndex?_index (r : Register) : ofIndex? r.index = some r := by
  cases r <;> rfl

theorem index_of_ofIndex? {n : Nat} {r : Register} (hr : ofIndex? n = some r) : r.index = n := by
  match n, hr with
  | 0, rfl => rfl
  | 1, rfl => rfl
  | 2, rfl => rfl
  | 3, rfl => rfl

theorem index_lt (r : Register) : r.index < 4 := by
  cases r <;> decide

end Register

namespace Operand

/-- The base of an address is read back from its number. -/
theorem baseOfCode_baseCode (base : Option Register) : baseOfCode (baseCode base) = base := by
  cases base with
  | none => rfl
  | some r => exact r.ofIndex?_index

/-- The number of a base is below that of the ways to choose one. -/
theorem baseCode_lt (base : Option Register) : baseCode base < stride := by
  cases base with
  | none => decide
  | some r => exact Nat.succ_lt_succ r.index_lt

/-- Every number below has its base. -/
theorem baseCode_baseOfCode {n : Nat} (hn : n < stride) : baseCode (baseOfCode n) = n := by
  match n, hn with
  | 0, _ => rfl
  | 1, _ => rfl
  | 2, _ => rfl
  | 3, _ => rfl
  | 4, _ => rfl

/-! ## Pairs of doubles -/

/-- The number that packs the two parts of an address. -/
def addressCode (base : Option Register) (displacement : Fin ramSize) : Nat :=
  baseCode base + displacement * stride

/-- The code of an address is a number that doubles hold exactly. -/
theorem addressCode_le (base : Option Register) (displacement : Fin ramSize) :
    addressCode base displacement ≤ maxIndex := by
  have hbase := baseCode_lt base
  have hdisplacement := displacement.isLt
  unfold addressCode
  unfold stride Register.all ramSize at *
  unfold maxIndex
  simp only [List.length_cons, List.length_nil] at *
  omega

/-- The number of the base is the remainder of the code of an address by the stride. -/
theorem addressCode_mod (base : Option Register) (displacement : Fin ramSize) :
    addressCode base displacement % stride = baseCode base := by
  rw [addressCode, Nat.add_mul_mod_self_right, Nat.mod_eq_of_lt (baseCode_lt base)]

/-- The displacement is the quotient. -/
theorem addressCode_div (base : Option Register) (displacement : Fin ramSize) :
    addressCode base displacement / stride = displacement := by
  rw [addressCode, Nat.add_mul_div_right _ _ (by decide), Nat.div_eq_of_lt (baseCode_lt base),
    Nat.zero_add]

/-- Which pairs of doubles stand for which operand. -/
theorem decode_eq_ok_iff {name : String} {offset : Nat} {mode value : Double} {x : Operand} :
    decode name offset mode value = .ok x ↔
      match x with
      | imm v => mode.index? = some 0 ∧ value = v
      | reg r => mode.index? = some 1 ∧ value.index? = some r.index
      | mem base displacement =>
        mode.index? = some 2 ∧ value.index? = some (addressCode base displacement) := by
  have hselect : decode name offset mode value = .ok x ↔
      (mode.index? = some 0 ∧ x = imm value) ∨
      (mode.index? = some 1 ∧ ∃ r, value.index?.bind Register.ofIndex? = some r ∧ x = reg r) ∨
      (mode.index? = some 2 ∧ ∃ code, ∃ h : code / stride < ramSize, value.index? = some code ∧
        x = mem (baseOfCode (code % stride)) ⟨code / stride, h⟩) := by
    unfold decode Selector.ofDouble?
    rcases hmode : mode.index? with _ | n
    · simp
    · match n with
      | 0 => simp [eq_comm]
      | 1 =>
        cases hregister : value.index?.bind Register.ofIndex? with
        | none => simp
        | some r => simp [eq_comm]
      | 2 =>
        cases hvalue : value.index? with
        | none => simp
        | some code =>
          by_cases hcode : code / stride < ramSize
          · simp [hcode, eq_comm]
          · simp [hcode]
      | n + 3 => simp
  rw [hselect]
  cases x with
  | imm v => simp [eq_comm]
  | reg r =>
    simp only [reduceCtorEq, and_false, false_or, reg.injEq, exists_eq_right', exists_false,
      or_false, Option.bind_eq_some_iff]
    constructor
    · rintro ⟨hmode, n, hvalue, hr⟩
      rw [Register.index_of_ofIndex? hr]
      exact ⟨hmode, hvalue⟩
    · rintro ⟨hmode, hvalue⟩
      exact ⟨hmode, r.index, hvalue, r.ofIndex?_index⟩
  | mem base displacement =>
    simp only [reduceCtorEq, and_false, exists_false, false_or, mem.injEq]
    constructor
    · rintro ⟨hmode, code, h, hvalue, rfl, rfl⟩
      refine ⟨hmode, ?_⟩
      rw [hvalue, addressCode, baseCode_baseOfCode (Nat.mod_lt _ (by decide)),
        Nat.mod_add_div' code stride]
    · rintro ⟨hmode, hvalue⟩
      have hdiv := addressCode_div base displacement
      refine ⟨hmode, _, ?_, hvalue, ?_, ?_⟩
      · rw [hdiv]
        exact displacement.isLt
      · rw [addressCode_mod, baseOfCode_baseCode]
      · exact Fin.ext hdiv.symm

/-- The pair of an operand stands for it. -/
theorem decode_encode (name : String) (offset : Nat) (x : Operand) :
    decode name offset x.encode.1 x.encode.2 = .ok x := by
  rw [decode_eq_ok_iff]
  cases x with
  | imm v => exact ⟨Double.index?_ofNat (by decide), rfl⟩
  | reg r =>
    have hr := r.index_lt
    exact ⟨Double.index?_ofNat (by decide), Double.index?_ofNat (by unfold maxIndex; omega)⟩
  | mem base displacement =>
    exact ⟨Double.index?_ofNat (by decide), Double.index?_ofNat (addressCode_le _ _)⟩

/-- Different operands have different doubles. -/
theorem encode_inj {x y : Operand} (heq : x.encode = y.encode) : x = y := by
  have hx := decode_encode "" 0 x
  rw [heq, decode_encode] at hx
  exact (Except.ok.inj hx).symm

/-- Whether an operand is an immediate. -/
def isImm : Operand → Bool
  | imm _ => true
  | _ => false

/-- A pair that stands for an operand is its pair, apart from the sign of zeros that are no
immediates. -/
theorem encode_of_decode {name : String} {offset : Nat} {mode value : Double} {x : Operand}
    (hdecode : decode name offset mode value = .ok x) :
    x.encode = (mode.canonical, if x.isImm then value else value.canonical) := by
  rw [decode_eq_ok_iff] at hdecode
  cases x with
  | imm v =>
    obtain ⟨hmode, rfl⟩ := hdecode
    rw [← Double.ofNat_eq_canonical hmode]
    rfl
  | reg r =>
    obtain ⟨hmode, hvalue⟩ := hdecode
    rw [← Double.ofNat_eq_canonical hmode, ← Double.ofNat_eq_canonical hvalue]
    rfl
  | mem base displacement =>
    obtain ⟨hmode, hvalue⟩ := hdecode
    rw [← Double.ofNat_eq_canonical hmode, ← Double.ofNat_eq_canonical hvalue]
    rfl

/-- A pair that stands for an operand is its pair unless a negative zero occurs in it, other
than as an immediate. -/
theorem encode_eq_iff {name : String} {offset : Nat} {mode value : Double} {x : Operand}
    (hdecode : decode name offset mode value = .ok x) :
    x.encode = (mode, value) ↔
      mode ≠ negativeZero ∧ (x.isImm = false → value ≠ negativeZero) := by
  rw [encode_of_decode hdecode, Prod.mk.injEq, Double.canonical_eq_self]
  cases x.isImm with
  | true => simp
  | false => simp [Double.canonical_eq_self]

/-! ## Texts -/

theorem lt_wordValues (displacement : Fin ramSize) : displacement.val < wordValues := by
  have hlt := displacement.isLt
  unfold ramSize at hlt
  unfold wordValues
  omega

/-- The characters between the brackets of an address. -/
def addressChars : Option Register → Fin ramSize → List Char
  | none, displacement => Nat.toDigits 10 displacement
  | some r, displacement =>
    if displacement.val = 0 then r.name.toList
    else r.name.toList ++ '+' :: Nat.toDigits 10 displacement

theorem writes_toDigits (n : Nat) : Writes (Nat.toDigits 10 n) n :=
  ⟨Nat.toDigits_ne_nil, fun _ hc => Decimal.isDigit_of_mem_toDigits hc,
    Nat.ofDigitChars_ten_toDigits⟩

/-- What is written between brackets is what the grammar allows there. -/
theorem contents_addressChars (base : Option Register) (displacement : Fin ramSize) :
    Contents (addressChars base displacement) base displacement := by
  have hblanks : Blanks [] := by simp [Blanks]
  have hdigits := writes_toDigits displacement
  cases base with
  | none => simpa [addressChars] using Contents.displacement hblanks hdigits hblanks
  | some r =>
    by_cases hzero : displacement.val = 0
    · simpa [addressChars, hzero] using Contents.register r hblanks hblanks
    · simpa [addressChars, hzero] using Contents.sum r hblanks hblanks hblanks hdigits hblanks

/-- An address in brackets is read back. -/
theorem readAddress?_addressChars (base : Option Register) (displacement : Fin ramSize) :
    readAddress? ('[' :: (addressChars base displacement ++ [']'])) =
      some (base, displacement.val) := by
  refine readAddress?_eq_some_iff.mpr ⟨lt_wordValues displacement, _, [], ?_, by simp [Blanks], rfl⟩
  exact contents_addressChars base displacement

theorem toString_string (s : String) : toString s = s := rfl

/-- The text of an address has brackets around it. -/
theorem toList_toText_mem (base : Option Register) (displacement : Fin ramSize) :
    (mem base displacement).toText.toList = '[' :: (addressChars base displacement ++ [']']) := by
  cases base with
  | none => simp [toText, addressChars, toString_string, String.toList_append, Nat.toList_repr]
  | some r =>
    by_cases hzero : displacement.val = 0
    · simp [toText, addressChars, hzero, toString_string, String.toList_append]
    · simp [toText, addressChars, hzero, toString_string, String.toList_append, Nat.toList_repr]

/-- A token that starts like no register and no address is read as a numeral. -/
theorem parse_numeral {token : String} {v : Double} (hr : token.toList.head? ≠ some 'r')
    (hbracket : token.toList.head? ≠ some '[') (hv : Double.ofText? token = some v) :
    parse token = .ok (imm v) := by
  simp [parse, ofName?_eq_none hr, hr, hbracket, hv]

/-- A token that is read as an immediate is a numeral. -/
theorem ofText?_of_parse {token : String} {v : Double} (hparse : parse token = .ok (imm v)) :
    Double.ofText? token = some v := by
  unfold parse parseMemory at hparse
  split at hparse
  · cases hparse
  · split_ifs at hparse
    · split at hparse
      · cases hparse
      · split at hparse <;> cases hparse
    · split at hparse
      · rename_i hv
        cases hparse
        exact hv
      · cases hparse

/-- The text of a double starts like no register and no address. -/
theorem head?_toText (v : Double) :
    v.toText.toList.head? ≠ some 'r' ∧ v.toText.toList.head? ≠ some '[' := by
  have hhead {c : Char} (hc : v.toText.toList.head? = some c) :
      c.isDigit = true ∨ c ∈ ['.', '-', 'N', 'a', 'i', 'n', 'f'] := by
    rw [Double.toText, String.toList_ofList] at hc
    exact Double.mem_toChars (List.mem_of_mem_head? hc)
  constructor
  · intro hc
    exact absurd (hhead hc) (by decide)
  · intro hc
    exact absurd (hhead hc) (by decide)

/-- The text of an operand denotes it, unless it is a NaN. -/
theorem parse_toText {x : Operand} (hnan : ∀ v, x = imm v → v.isNaN = false) :
    parse x.toText = .ok x := by
  cases x with
  | imm v =>
    rcases head?_toText v with ⟨hr, hbracket⟩
    exact parse_numeral hr hbracket (Double.ofText?_toText (hnan v rfl))
  | reg r => simp [parse, toText, Register.ofName?_name]
  | mem base displacement =>
    have hchars := toList_toText_mem base displacement
    rw [parse_of_bracket (by simp [hchars]), parseMemory_eq_ok_iff, hchars]
    exact ⟨base, displacement, displacement.isLt, readAddress?_addressChars base displacement, rfl⟩

/-- The text of a NaN denotes the quiet NaN without a sign. -/
theorem parse_toText_of_isNaN {v : Double} (hnan : v.isNaN = true) :
    parse v.toText = .ok (imm (Double.ofMagnitude false Double.nanWord)) := by
  rcases head?_toText v with ⟨hr, hbracket⟩
  exact parse_numeral hr hbracket (Double.ofText?_toText_of_isNaN hnan)

/-! ## All forms together -/

/-- The numbers in an operand are those of a register and a memory cell. -/
def InRange : Operand → Prop
  | imm _ => True
  | reg r => r.index < 4
  | mem base displacement => (∀ r ∈ base, r.index < 4) ∧ displacement.val < 10000

/-- Every operand is within the limits of the forms it takes. -/
theorem inRange (x : Operand) : x.InRange := by
  cases x with
  | imm v => trivial
  | reg r => exact r.index_lt
  | mem base displacement => exact ⟨fun r _ => r.index_lt, displacement.isLt⟩

/-- The three forms of an operand agree: its pair of doubles stands for it, and so does its text
unless it is a NaN.  Every pair that stands for an operand stands for one whose numbers are in
range, and is the pair of that operand but for the sign of zeros; so no two operands have the
same pair. -/
theorem forms_agree :
    (∀ (x : Operand) (name : String) (offset : Nat),
      decode name offset x.encode.1 x.encode.2 = .ok x) ∧
    (∀ x : Operand, (∀ v, x = imm v → v.isNaN = false) → parse x.toText = .ok x) ∧
    (∀ (name : String) (offset : Nat) (mode value : Double) (x : Operand),
      decode name offset mode value = .ok x →
        x.InRange ∧ x.encode = (mode.canonical, if x.isImm then value else value.canonical)) ∧
    ∀ x y : Operand, x.encode = y.encode → x = y := by
  refine ⟨?_, ?_, ?_, ?_⟩
  · intro x name offset
    exact decode_encode name offset x
  · intro x hnan
    exact parse_toText hnan
  · intro name offset mode value x hdecode
    exact ⟨x.inRange, encode_of_decode hdecode⟩
  · intro x y heq
    exact encode_inj heq

/-- An address is read from its text, a register from two doubles of which one is a negative zero,
and the two are told apart by their doubles. -/
theorem forms_agree_cellExample :
    parse "[rcx+7]" = .ok (mem (some .rcx) ⟨7, by decide⟩) ∧
    decode "POP" 6 (.ofNat 1) negativeZero = .ok (reg .rax) ∧
      (reg .rax).encode = (Double.ofNat 1, Double.zero) ∧
    (reg .rax).encode ≠ (mem none ⟨0, by decide⟩).encode := by
  have htext : (mem (some .rcx) ⟨7, by decide⟩).toText = "[rcx+7]" := by decide +kernel
  have hdecode : decode "POP" 6 (.ofNat 1) negativeZero = .ok (reg .rax) := by decide +kernel
  have hcanonical : (Double.ofNat 1).canonical = Double.ofNat 1 ∧
      negativeZero.canonical = Double.zero := by decide +kernel
  obtain ⟨_, hparse, hpair, hinjective⟩ := forms_agree
  refine ⟨?_, hdecode, ?_, ?_⟩
  · rw [← htext]
    exact hparse _ (by simp)
  · rw [(hpair _ _ _ _ _ hdecode).2, hcanonical.1]
    exact congrArg (Prod.mk _) hcanonical.2
  · intro heq
    cases hinjective _ _ heq

end Operand

end StackMachine
