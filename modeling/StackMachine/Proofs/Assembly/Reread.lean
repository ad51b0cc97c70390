import StackMachine.Program.Listing
import StackMachine.Proofs.Assembly.Emit
import StackMachine.Proofs.Assembly.Words
import StackMachine.Proofs.Program.Verified

/-!
# Listed instructions are read back

The source line of an instruction of a verified program is a line of words, and assembling
it gives an instruction with the same opcode and the same meaning.  `Placed.reread` is that
instruction: numbers lose the sign of a zero, a pop that discards its value loses what
stood there, a NaN loses its sign and payload, and the end of a function is computed anew.

Main results:

- Theorem `Placed.render_eq`: the source line of a verified instruction is a line of words.
- Theorem `Scope.emit_words`: the words of an instruction give the instruction that
  `Placed.reread` describes.
-/

namespace StackMachine

open Fallible
open Assembly (IsWord isWordChar isPlainChar insideAfter)

/-! ## Names -/

section Names

variable {m n : Nat}

theorem toList_labelName : (labelName n).toList = 'L' :: Nat.toDigits 10 n := by
  simp [labelName, Operand.toString_string, String.toList_append, Nat.toList_repr]

theorem toList_functionName : (functionName n).toList = 'f' :: 'n' :: '_' :: Nat.toDigits 10 n := by
  simp [functionName, Operand.toString_string, String.toList_append, Nat.toList_repr]

theorem toDigits_inj (hdigits : Nat.toDigits 10 m = Nat.toDigits 10 n) : m = n := by
  rw [← Nat.ofDigitChars_ten_toDigits (n := m), hdigits, Nat.ofDigitChars_ten_toDigits]

/-- Labels at different offsets have different names. -/
theorem labelName_inj (hname : labelName m = labelName n) : m = n := by
  have hchars := congrArg String.toList hname
  rw [toList_labelName, toList_labelName] at hchars
  exact toDigits_inj (List.cons.inj hchars).2

/-- Functions at different offsets have different names. -/
theorem functionName_inj (hname : functionName m = functionName n) : m = n := by
  have hchars := congrArg String.toList hname
  rw [toList_functionName, toList_functionName] at hchars
  exact toDigits_inj (by simpa using hchars)

theorem labelName_ne_empty : labelName n ≠ "" := by
  intro hname
  have hchars := congrArg String.toList hname
  rw [toList_labelName] at hchars
  cases hchars

/-- The name of a function stands for itself, since it has no colon. -/
theorem functionOf_functionName : Assembly.functionOf (functionName n) = functionName n := by
  rw [Assembly.functionOf, Assembly.labelOf?_eq_none (c := 'f') (by decide)
    (by rw [toList_functionName]; rfl)]
  rfl

theorem functionName_ne_empty : functionName n ≠ "" := by
  intro hname
  have hchars := congrArg String.toList hname
  rw [toList_functionName] at hchars
  cases hchars

end Names

/-! ## Words -/

theorem isPlainChar_of_isDigit {c : Char} (hc : c.isDigit = true) : isPlainChar c = true := by
  have hne {d : Char} (hd : d.isDigit = false) : c ≠ d := by
    rintro rfl
    rw [hc] at hd
    cases hd
  simp [isPlainChar, isWordChar, hne (d := '#') (by decide), hne (d := ',') (by decide),
    hne (d := ' ') (by decide), hne (d := '\t') (by decide), hne (d := '\r') (by decide),
    hne (d := '\n') (by decide), hne (d := '[') (by decide)]

theorem all_toDigits (n : Nat) : (Nat.toDigits 10 n).all isPlainChar = true :=
  List.all_eq_true.mpr fun _ hc => isPlainChar_of_isDigit (Decimal.isDigit_of_mem_toDigits hc)

/-- A label in a listing is a word. -/
theorem isWord_colon_labelName (n : Nat) : IsWord (":" ++ labelName n).toList := by
  rw [String.toList_append, toList_labelName]
  refine Assembly.isWord_of_all (by simp) ?_
  rw [List.all_append, List.all_cons, all_toDigits]
  rfl

/-- The name of a function in a listing is a word. -/
theorem isWord_functionName (n : Nat) : IsWord (functionName n).toList := by
  rw [toList_functionName]
  refine Assembly.isWord_of_all (by simp) ?_
  rw [List.all_cons, List.all_cons, List.all_cons, all_toDigits]
  rfl

/-- The text of a double is a word. -/
theorem isWord_toText (v : Double) : IsWord v.toText.toList := by
  rw [Double.toText, String.toList_ofList]
  have hother : ['.', '-', 'N', 'a', 'i', 'n', 'f'].all isPlainChar = true := by decide
  refine Assembly.isWord_of_all v.toChars_ne_nil (List.all_eq_true.mpr fun c hc => ?_)
  rcases Double.mem_toChars hc with hdigit | hc
  · exact isPlainChar_of_isDigit hdigit
  · exact List.all_eq_true.mp hother c hc

theorem all_name (r : Register) : r.name.toList.all isPlainChar = true := by
  cases r <;> decide

/-- What stands between the brackets of an address stands in words. -/
theorem all_addressChars (base : Option Register) (displacement : Fin ramSize) :
    (Operand.addressChars base displacement).all isPlainChar = true := by
  cases base with
  | none => exact all_toDigits _
  | some r =>
    by_cases hzero : displacement.val = 0
    · rw [Operand.addressChars, if_pos hzero, all_name]
    · rw [Operand.addressChars, if_neg hzero, List.all_append, List.all_cons, all_name,
        all_toDigits]
      rfl

/-- What stands between two brackets makes a word with them. -/
theorem isWord_brackets {cs : List Char} (hall : cs.all isPlainChar = true) :
    IsWord ('[' :: (cs ++ [']'])) := by
  refine ⟨by simp, ?_, ?_⟩
  · intro c hc
    rcases List.mem_cons.mp hc with rfl | hc
    · rfl
    · rcases List.mem_append.mp hc with hc | hc
      · have hplain := List.all_eq_true.mp hall c hc
        rw [isPlainChar, Bool.and_eq_true] at hplain
        exact hplain.1
      · rw [List.mem_singleton.mp hc]
        rfl
  · rw [List.foldl_cons, List.foldl_append]
    simp [insideAfter]

/-- The text of a stack operand is a word. -/
theorem isWord_operand (x : Operand) : IsWord x.toText.toList := by
  cases x with
  | imm v => exact isWord_toText v
  | reg r => exact Assembly.isWord_of_all (by cases r <;> decide) (all_name r)
  | mem base displacement =>
    rw [Operand.toList_toText_mem]
    exact isWord_brackets (all_addressChars base displacement)

/-! ## Source lines -/

namespace Placed

variable {m : CodeMap} {d : Placed}

/-- The words a listing shows for one operand. -/
def wordsOf (d : Placed) (kind : OperandKind) (n : Nat) : List String :=
  (d.renderOperand kind n).toOption.getD []

/-- The words a listing shows for the operands of an instruction. -/
def words (d : Placed) : List String :=
  d.opcode.operands.zipIdx.flatMap fun x => d.wordsOf x.1 x.2

/-- The words of an operand that can be listed are those it is listed with. -/
theorem wordsOf_eq {kind : OperandKind} {n : Nat} {ws : List String}
    (hrender : d.renderOperand kind n = .ok ws) : d.wordsOf kind n = ws := by
  rw [wordsOf, hrender]
  rfl

/-- An admitted operand is shown. -/
theorem renderOperand_of_admits {kind : OperandKind} {n : Nat} (hadmits : m.Admits d kind n) :
    d.renderOperand kind n = .ok (d.wordsOf kind n) := by
  have hsome : ∃ ws, d.renderOperand kind n = .ok ws := by
    cases kind with
    | mode =>
      rcases hadmits with ⟨x, hx⟩
      simp only [renderOperand, bind_eq_ok]
      cases x with
      | imm v => exact ⟨_, _, hx, rfl⟩
      | reg r => exact ⟨_, _, hx, rfl⟩
      | mem base displacement => exact ⟨_, _, hx, rfl⟩
    | _ => exact ⟨_, rfl⟩
  rcases hsome with ⟨ws, hws⟩
  rw [hws, wordsOf_eq hws]

/-- The source line of a verified instruction is a line of words. -/
theorem render_eq (hadmits : ∀ x ∈ d.opcode.operands.zipIdx, m.Admits d x.1 x.2) :
    d.render = .ok (" ".intercalate (d.opcode.mnemonic :: d.words)) := by
  rw [words, List.flatMap_def]
  exact bind_eq_ok.mpr
    ⟨_, mapM_of_forall fun x hx => renderOperand_of_admits (hadmits x hx), rfl⟩

/-! ## What is read back -/

/-- The number that is read back for an operand of its own. -/
def rereadNumber (d : Placed) (finish : Nat) (kind : OperandKind) (n : Nat) : Nat :=
  if kind = .bodyEnd then finish else (d.operand n).index?.getD 0

end Placed

/-- The stack operand that is read back for one. -/
def Operand.reread (op : Opcode) : Operand → Operand
  | .imm v =>
    if op = .pop then .imm Double.zero
    else if v.isNaN then .imm (Double.ofMagnitude false Double.nanWord)
    else .imm v
  | x => x

/-- The doubles that are read back for a stack operand. -/
def Placed.rereadStack (d : Placed) : List Double :=
  match Operand.decode d.opcode.mnemonic d.offset (d.operand 0) (d.operand 1) with
  | .ok x => [(x.reread d.opcode).encode.1, (x.reread d.opcode).encode.2]
  | .error _ => []

/-- The instruction that is read back for one whose function, if it heads one, ends at the
given offset. -/
def Placed.reread (d : Placed) (finish : Nat) : Instruction where
  opcode := d.opcode
  operands :=
    if d.opcode.isStack then d.rereadStack
    else d.opcode.operands.zipIdx.map fun x => Double.ofNat (d.rereadNumber finish x.1 x.2)

namespace Assembly

/-- What the names that an instruction's source line uses stand for. -/
structure Scope.Serves (s : Scope) (d : Placed) (finish : Nat) : Prop where
  target : ∀ n t, (.target, n) ∈ d.opcode.operands.zipIdx → (d.operand n).index? = some t →
    s.resolveLabel (":" ++ labelName t) = .ok t
  function : ∀ n t, (.function, n) ∈ d.opcode.operands.zipIdx → (d.operand n).index? = some t →
    ∃ extent, s.resolveFunction (functionName t) = .ok extent ∧ extent.entry = t
  bodyEnd : d.opcode.isHeader = true →
    ∃ extent, s.resolveFunction (functionName d.offset) = .ok extent ∧ extent.finish = finish

/-- A number is read back from its text. -/
theorem parseCount_toText {v : Double} {n : Nat} (hindex : v.index? = some n) :
    parseCount v.toText = .ok n := by
  have hread := Double.ofText?_toText (Double.isNaN_of_index? hindex)
  simp [parseCount, hread, hindex]

/-- All natural numbers that doubles hold exactly are offsets. -/
theorem maxIndex_le_maxOffset : Double.maxIndex ≤ maxOffset := by decide

/-- An operand of its own is one word, which names the number that is read back. -/
theorem names_wordsOf {m : CodeMap} {d : Placed} {kind : OperandKind} {n : Nat}
    (hkind : kind.isPlain = true) (hx : (kind, n) ∈ d.opcode.operands.zipIdx)
    (hadmits : m.Admits d kind n) :
    ∃ w, d.wordsOf kind n = [w] ∧ IsWord w.toList ∧ (kind = .bodyEnd → w = functionName d.offset) ∧
      ∀ s finish, Scope.Serves s d finish → s.Names kind w (d.rereadNumber finish kind n) := by
  have htruncate {t : Nat} (ht : (d.operand n).index? = some t) :
      (d.operand n).truncate maxOffset = t :=
    Double.truncate_of_index? ht ((Double.index?_le ht).trans maxIndex_le_maxOffset)
  cases kind with
  | mode => cases hkind
  | location => cases hkind
  | target =>
    rcases hadmits with ⟨t, ht, _⟩
    refine ⟨":" ++ labelName t, ?_, isWord_colon_labelName t, by simp, ?_⟩
    · exact Placed.wordsOf_eq (by simp [Placed.renderOperand, htruncate ht])
    · intro s finish hserves
      simpa [Scope.Names, Placed.rereadNumber, ht] using hserves.target n t hx ht
  | function =>
    rcases hadmits with ⟨t, ht, _⟩
    refine ⟨functionName t, ?_, isWord_functionName t, by simp, ?_⟩
    · exact Placed.wordsOf_eq (by simp [Placed.renderOperand, htruncate ht])
    · intro s finish hserves
      simpa [Scope.Names, Placed.rereadNumber, ht] using hserves.function n t hx ht
  | bodyEnd =>
    refine ⟨functionName d.offset, Placed.wordsOf_eq rfl, isWord_functionName _, by simp, ?_⟩
    intro s finish hserves
    simpa [Scope.Names, Placed.rereadNumber] using hserves.bodyEnd (isHeader_of_bodyEnd hx).1
  | count | slot =>
    rcases hadmits with ⟨k, hk⟩
    refine ⟨(d.operand n).toText, Placed.wordsOf_eq rfl, isWord_toText _, by simp, ?_⟩
    intro s finish _
    simpa [Scope.Names, Placed.rereadNumber, hk] using parseCount_toText hk
  | frameSize | length =>
    rcases hadmits with ⟨k, hk, hle⟩
    refine ⟨(d.operand n).toText, Placed.wordsOf_eq rfl, isWord_toText _, by simp, ?_⟩
    intro s finish _
    simpa [Scope.Names, Placed.rereadNumber, hk, hle] using parseCount_toText hk

/-- The words of an instruction without a stack operand, by number. -/
theorem words_of_not_isStack {m : CodeMap} {d : Placed} (hop : d.opcode.isStack = false)
    (hadmits : ∀ x ∈ d.opcode.operands.zipIdx, m.Admits d x.1 x.2) :
    d.words.length = d.opcode.arity ∧ ∀ kind n, (kind, n) ∈ d.opcode.operands.zipIdx →
      d.wordsOf kind n = [d.words.getD n ""] := by
  have hone : ∀ x ∈ d.opcode.operands.zipIdx, d.wordsOf x.1 x.2 = [(d.wordsOf x.1 x.2).headD ""] := by
    rintro ⟨kind, n⟩ hx
    have hkind := Opcode.isPlain_of_mem hop kind (List.fst_mem_of_mem_zipIdx hx)
    rcases names_wordsOf hkind hx (hadmits _ hx) with ⟨w, hw, _⟩
    rw [hw]
    rfl
  have hwords : d.words =
      d.opcode.operands.zipIdx.map fun x => (d.wordsOf x.1 x.2).headD "" := by
    rw [Placed.words, List.flatMap_congr hone, List.map_eq_flatMap]
  refine ⟨by simp [hwords, Opcode.arity], ?_⟩
  intro kind n hx
  have hget := List.mk_mem_zipIdx_iff_getElem?.mp hx
  rw [hone _ hx, hwords, List.getD_eq_getElem?_getD, List.getElem?_map, List.getElem?_zipIdx, hget]
  simp

/-- The words of an instruction without a stack operand give the instruction that is read
back. -/
theorem Scope.emit_words_of_not_isStack {m : CodeMap} {s : Scope} {d : Placed} {line : SourceLine}
    {finish : Nat} (hop : d.opcode.isStack = false)
    (hadmits : ∀ x ∈ d.opcode.operands.zipIdx, m.Admits d x.1 x.2) (hserves : s.Serves d finish)
    (hopcode : line.opcode = d.opcode) (hwords : line.operands.map Token.text = d.words) :
    s.emit line = .ok (d.reread finish) := by
  rcases words_of_not_isStack hop hadmits with ⟨hlen, hget⟩
  have hoperands : (d.reread finish).operands =
      d.opcode.operands.zipIdx.map fun x => Double.ofNat (d.rereadNumber finish x.1 x.2) := by
    simp [Placed.reread, hop]
  rw [emit_eq_ok (by rwa [hopcode]), hopcode]
  refine ⟨?_, rfl, ?_, ?_⟩
  · rw [← hlen, ← hwords, List.length_map]
  · rw [Instruction.HasArity, hoperands, List.length_map, List.length_zipIdx]
    rfl
  · rintro ⟨kind, n⟩ hx
    have hkind := Opcode.isPlain_of_mem hop kind (List.fst_mem_of_mem_zipIdx hx)
    rcases names_wordsOf hkind hx (hadmits _ hx) with ⟨w, hw, _, _, hnames⟩
    have htext : line.text n = w := by
      have hone := hget kind n hx
      rw [hw, ← hwords] at hone
      rw [SourceLine.text, ← List.getElem?_map, ← List.getD_eq_getElem?_getD]
      exact (List.singleton_inj.mp hone).symm
    refine ⟨d.rereadNumber finish kind n, ?_, ?_⟩
    · rw [htext]
      exact hnames s finish hserves
    · rw [Instruction.operand, hoperands, List.getD_eq_getElem?_getD, List.getElem?_map,
        List.getElem?_zipIdx, List.mk_mem_zipIdx_iff_getElem?.mp hx]
      simp

/-- The text of a stack operand is resolved to the operand that is read back. -/
theorem resolveStackOperand_toText {op : Opcode} {x : Operand}
    (hx : op = .pop → x.isImm = false) :
    resolveStackOperand op (some x.toText) = .ok (x.reread op) := by
  cases x with
  | imm v =>
    have hop : op ≠ .pop := by
      intro hpop
      cases hx hpop
    by_cases hnan : v.isNaN = true
    · have hparse := Operand.parse_toText_of_isNaN hnan
      simp only [resolveStackOperand, Operand.toText, hparse, Operand.reread, hop, hnan, if_false,
        if_true]
      rfl
    · have hparse : Operand.parse (Operand.imm v).toText = .ok (.imm v) :=
        Operand.parse_toText (by rintro _ ⟨⟩; simpa using hnan)
      simp only [resolveStackOperand, hparse, Operand.reread, hop, hnan, if_false]
      rfl
  | reg r =>
    have hparse : Operand.parse (Operand.reg r).toText = .ok (.reg r) :=
      Operand.parse_toText (by simp)
    simp only [resolveStackOperand, hparse, Operand.reread]
    rfl
  | mem base displacement =>
    have hparse : Operand.parse (Operand.mem base displacement).toText =
        .ok (.mem base displacement) := Operand.parse_toText (by simp)
    simp only [resolveStackOperand, hparse, Operand.reread]
    rfl

/-- The words of a push or a pop: none for a value that is discarded, and the text of the
operand otherwise. -/
theorem words_of_isStack {d : Placed} {x : Operand} (hop : d.opcode.isStack = true)
    (hx : Operand.decode d.opcode.mnemonic d.offset (d.operand 0) (d.operand 1) = .ok x) :
    d.words = if d.opcode = .pop ∧ x.isImm = true then [] else [x.toText] := by
  have hwords : d.words = d.wordsOf .mode 0 := by
    rw [Placed.words, Opcode.operands_of_isStack hop]
    exact List.append_nil _
  rw [hwords]
  apply Placed.wordsOf_eq
  simp only [Placed.renderOperand, hx, bind, Except.bind]
  cases x with
  | imm v => by_cases hpop : d.opcode = .pop <;> simp [hpop, Operand.isImm, Operand.toText, pure, Except.pure]
  | reg r => simp [Operand.isImm, pure, Except.pure]
  | mem base displacement => simp [Operand.isImm, pure, Except.pure]

/-- The words of a push or a pop give the instruction that is read back. -/
theorem Scope.emit_words_of_isStack {s : Scope} {d : Placed} {line : SourceLine} {finish : Nat}
    {x : Operand} (hop : d.opcode.isStack = true)
    (hx : Operand.decode d.opcode.mnemonic d.offset (d.operand 0) (d.operand 1) = .ok x)
    (hopcode : line.opcode = d.opcode) (hwords : line.operands.map Token.text = d.words) :
    s.emit line = .ok (d.reread finish) := by
  rw [words_of_isStack hop hx] at hwords
  rw [emit_eq_ok_of_isStack (by rwa [hopcode]), hopcode]
  have htokens : line.opcode.tokenCount = 1 := by
    rw [Opcode.tokenCount, hopcode, Opcode.operands_of_isStack hop]
    rfl
  have hoperands : (d.reread finish).operands =
      [(x.reread d.opcode).encode.1, (x.reread d.opcode).encode.2] := by
    simp [Placed.reread, hop, Placed.rereadStack, hx]
  by_cases hdiscard : d.opcode = .pop ∧ x.isImm = true
  · rw [if_pos hdiscard, List.map_eq_nil_iff] at hwords
    refine ⟨by simp [SourceLine.hasArity, hwords, hopcode, hdiscard.1], rfl, x.reread d.opcode, ?_,
      hoperands⟩
    cases x with
    | imm v => simp [hwords, resolveStackOperand, Operand.reread, hdiscard.1]
    | reg r => cases hdiscard.2
    | mem base displacement => cases hdiscard.2
  · rw [if_neg hdiscard] at hwords
    have hhead : line.operands.head?.map Token.text = some x.toText := by
      rw [← List.head?_map, hwords]
      rfl
    have hlen : line.operands.length = 1 := by
      rw [← List.length_map (f := Token.text), hwords]
      rfl
    refine ⟨by simp [SourceLine.hasArity, hlen, htokens], rfl, x.reread d.opcode, ?_, hoperands⟩
    rw [hhead]
    apply resolveStackOperand_toText
    intro hpop
    simpa [hpop] using hdiscard

/-- The words of an instruction give the instruction that is read back. -/
theorem Scope.emit_words {m : CodeMap} {s : Scope} {d : Placed} {line : SourceLine} {finish : Nat}
    (hadmits : ∀ x ∈ d.opcode.operands.zipIdx, m.Admits d x.1 x.2) (hserves : s.Serves d finish)
    (hopcode : line.opcode = d.opcode) (hwords : line.operands.map Token.text = d.words) :
    s.emit line = .ok (d.reread finish) := by
  cases hop : d.opcode.isStack with
  | false => exact emit_words_of_not_isStack hop hadmits hserves hopcode hwords
  | true =>
    rcases hadmits (.mode, 0) (by simp [Opcode.operands_of_isStack hop]) with ⟨x, hx⟩
    exact emit_words_of_isStack hop hx hopcode hwords

/-- The words of an instruction are words. -/
theorem isWord_words {m : CodeMap} {d : Placed}
    (hadmits : ∀ x ∈ d.opcode.operands.zipIdx, m.Admits d x.1 x.2) :
    ∀ w ∈ d.words, IsWord w.toList := by
  intro w hw
  cases hop : d.opcode.isStack with
  | true =>
    rcases hadmits (.mode, 0) (by simp [Opcode.operands_of_isStack hop]) with ⟨x, hx⟩
    rw [words_of_isStack hop hx] at hw
    split at hw
    · cases hw
    · rw [List.mem_singleton.mp hw]
      exact isWord_operand x
  | false =>
    rcases List.mem_flatMap.mp hw with ⟨⟨kind, n⟩, hx, hw⟩
    have hkind := Opcode.isPlain_of_mem hop kind (List.fst_mem_of_mem_zipIdx hx)
    rcases names_wordsOf hkind hx (hadmits _ hx) with ⟨w', hw', hword, _⟩
    rw [hw', List.mem_singleton] at hw
    rw [hw]
    exact hword

end Assembly

end StackMachine
