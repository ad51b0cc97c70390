import StackMachine.Proofs.Assembly.Columns
import StackMachine.Proofs.Assembly.Translation

/-!
# Where faults are

An assembly that fails names a line and a column.  The faults are found in three passes, and
each pass makes up a place from what it has at hand: a name, a token that is missing or one too
many, the header of a function that is still open at the end of the text, or a bracket.  All of
them are places in the source text: the line exists, and at the column one of its tokens starts
that the fault is about, or the last bracket that the line opens.  So the line that a diagnostic
shows is the one at fault.

Main definitions:

- `Quotes`, `Concerns`, what a cause says about the token it is about;
- `Fault.PointsInto`, the faults of a line;
- `marginNumber`, `IsStripped`, the parts of a diagnostic.

Main results:

- Theorems `exists_line_of_collect`, `fault_of_collectRoutines`, `Scope.fault_of_emit`: the faults
  of the three passes.
- Theorem `excerpt_eq`: the line that a diagnostic shows.
- Theorem `fault_located`: every fault points into the source text, and its diagnostic shows where.
-/

namespace StackMachine

open Fallible

namespace Assembly

/-! ## Causes and tokens -/

/-- A cause quotes a token, or the name that the token stands for. -/
def Quotes (text : String) : SourceError → Prop
  | .invalidMnemonic token | .expectedLabel token | .invalidRegister token | .invalidNumber token
  | .invalidCount token | .frameTooLarge token _ | .unsupportedOperand _ token => text = token
  | .invalidMemoryOperand token => ∃ remark, token = text ++ remark
  | .duplicateLabel name | .undefinedLabel name | .danglingLabel name => text = ":" ++ name
  | .duplicateFunction name | .nestedFunction name | .unterminatedFunction name =>
    bareName text = name
  -- A token without a name in it is quoted as it is.
  | .undefinedFunction name => bareName text = name ∨ text = name
  | .unmatchedEndFunc => text = "ENDFUNC"
  | .arityMismatch .. | .malformedLabel _ | .unterminatedBracket => False

/-- A cause is about one of the tokens of a line, which are a first one and the rest. -/
def Concerns (first : Token) (rest : List Token) (token : Token) : Error → Prop
  | .source (.malformedLabel _) =>
    token = rest.head?.getD first ∧ ∃ name, first.text = ":" ++ name ∧ (name = "" ∨ rest ≠ [])
  | .source (.arityMismatch instruction expected actual) =>
    token = rest[expected]?.getD first ∧ first.text = instruction ∧ rest.length = actual
  | .source cause => Quotes token.text cause
  | .code (.ramIndexOutOfBounds instruction _ index _) =>
    first.text = instruction ∧ ∃ n, parseCount token.text = .ok n ∧ index = Double.ofNat n
  | _ => False

/-- A cause that quotes a token is about it. -/
theorem concerns_of_quotes {first token : Token} {rest : List Token} {cause : SourceError}
    (hquotes : Quotes token.text cause) : Concerns first rest token (.source cause) := by
  cases cause with
  | arityMismatch | malformedLabel => cases hquotes
  | _ => exact hquotes

theorem getD_mem_cons (first : Token) (rest : List Token) (i : Nat) :
    rest[i]?.getD first ∈ first :: rest := by
  cases htoken : rest[i]? with
  | none => exact List.mem_cons_self
  | some token => exact List.mem_cons_of_mem _ (List.mem_of_getElem? htoken)

/-- The faults of a line: at the column a token of the line starts that the cause is about, or
the cause is a bracket that is not closed, and the last opening one is at the column. -/
def Fault.PointsInto (f : Fault) (line : List Char) : Prop :=
  (f.cause = .source .unterminatedBracket ∧ IsLastOpening line f.column) ∨
    ∃ first rest token, tokenize line = .ok (first :: rest) ∧ token ∈ first :: rest ∧
      token.text ≠ "" ∧ StandsAt line f.column token.text.toList ∧
      Concerns first rest token f.cause

/-- A fault at the column of a token that its cause is about points into the line. -/
theorem pointsInto_of_mem {f : Fault} {line : List Char} {first token : Token} {rest : List Token}
    (htokens : tokenize line = .ok (first :: rest)) (hmem : token ∈ first :: rest)
    (hcolumn : f.column = token.column) (hconcerns : Concerns first rest token f.cause) :
    f.PointsInto line := by
  obtain ⟨hne, hstands⟩ := standsAt_of_mem_tokens htokens hmem
  rw [← hcolumn] at hstands
  exact Or.inr ⟨first, rest, token, htokens, hmem, hne, hstands, hconcerns⟩

/-! ## Layout -/

/-- A line that cannot be read has its fault in itself. -/
theorem pointsInto_of_readLine {number : Nat} {line : List Char} {f : Fault}
    (hf : readLine number line = .error f) : f.line = number ∧ f.PointsInto line := by
  unfold readLine at hf
  split at hf
  · rename_i column herror
    cases hf
    exact ⟨rfl, Or.inl ⟨rfl, isLastOpening_of_tokenize herror⟩⟩
  · cases hf
  · rename_i first operands htokens
    split at hf
    · rename_i name hlabel
      split at hf
      · rename_i hmalformed
        cases hf
        refine ⟨rfl, pointsInto_of_mem htokens ?_ rfl ?_⟩
        · rw [List.head?_eq_getElem?]
          exact getD_mem_cons first operands 0
        · exact ⟨rfl, name, labelOf?_eq_some.mp hlabel, hmalformed⟩
      · cases hf
    · split at hf
      · cases hf
      · cases hf
        refine ⟨rfl, pointsInto_of_mem htokens List.mem_cons_self rfl ?_⟩
        exact concerns_of_quotes rfl

/-- A fault of the layout is on one of the lines. -/
theorem exists_line_of_collect {labels : List (String × Nat)} {offset : Nat}
    {numbered : List (List Char × Nat)} {f : Fault}
    (hf : collect labels offset numbered = .error f) :
    ∃ line, (line, f.line) ∈ numbered ∧ f.PointsInto line := by
  induction numbered generalizing labels offset with
  | nil => cases hf
  | cons head later ih =>
    obtain ⟨line, number⟩ := head
    have hlater : ∀ {labels offset}, collect labels offset later = .error f →
        ∃ line', (line', f.line) ∈ (line, number) :: later ∧ f.PointsInto line' := by
      intro labels offset hlater
      obtain ⟨line', hmem, hpoints⟩ := ih hlater
      exact ⟨line', List.mem_cons_of_mem _ hmem, hpoints⟩
    rw [collect] at hf
    rcases bind_eq_error.mp hf with hread | ⟨statement, hread, hrest⟩
    · obtain ⟨rfl, hpoints⟩ := pointsInto_of_readLine hread
      exact ⟨line, List.mem_cons_self, hpoints⟩
    · cases statement with
      | blank => exact hlater hrest
      | label name column =>
        dsimp only at hrest
        split at hrest
        · cases hrest
          refine ⟨line, List.mem_cons_self, ?_⟩
          refine pointsInto_of_mem (tokenize_of_readLine hread) List.mem_cons_self rfl ?_
          exact concerns_of_quotes rfl
        · exact hlater hrest
      | instruction op column operands =>
        rcases bind_eq_error.mp hrest with htail | ⟨tail, _, hpure⟩
        · exact hlater htail
        · cases hpure

/-- The name of the instruction on a line. -/
def SourceLine.name (l : SourceLine) : Token := ⟨l.opcode.mnemonic, l.column⟩

/-- The lines of a layout have the tokens of lines of the source text. -/
theorem exists_line_of_mem {labels : List (String × Nat)} {offset : Nat}
    {numbered : List (List Char × Nat)} {layout : Layout}
    (hcollect : collect labels offset numbered = .ok layout) :
    ∀ l ∈ layout.lines, ∃ line, (line, l.number) ∈ numbered ∧
      tokenize line = .ok (l.name :: l.operands) := by
  induction numbered generalizing labels offset layout with
  | nil =>
    cases hcollect
    simp
  | cons head later ih =>
    obtain ⟨line, number⟩ := head
    obtain ⟨statement, hread, hrest⟩ := collect_cons_eq_ok.mp hcollect
    intro l hl
    have hlater : (∃ line', (line', l.number) ∈ later ∧
          tokenize line' = .ok (l.name :: l.operands)) →
        ∃ line', (line', l.number) ∈ (line, number) :: later ∧
          tokenize line' = .ok (l.name :: l.operands) := by
      rintro ⟨line', hmem, htokens⟩
      exact ⟨line', List.mem_cons_of_mem _ hmem, htokens⟩
    cases statement with
    | blank => exact hlater (ih hrest l hl)
    | label name column => exact hlater (ih hrest.2 l hl)
    | instruction op column operands =>
      obtain ⟨tail, htail, rfl⟩ := hrest
      rcases List.mem_cons.mp hl with rfl | hl
      · exact ⟨line, List.mem_cons_self, tokenize_of_readLine hread⟩
      · exact hlater (ih htail l hl)

/-! ## Functions -/

/-- A fault is on an instruction line, and about one of its tokens. -/
def Fault.IsOn (f : Fault) (l : SourceLine) : Prop :=
  f.line = l.number ∧ ∃ token ∈ l.name :: l.operands, f.column = token.column ∧
    Concerns l.name l.operands token f.cause

/-- A header that opens no function has its fault on its own line. -/
theorem fault_of_openRoutine {functions : List (String × Extent)} {current : Option OpenRoutine}
    {l : SourceLine} {f : Fault} (hf : openRoutine functions current l = .error f) :
    f.IsOn l := by
  unfold openRoutine at hf
  cases hoperands : l.operands with
  | nil =>
    rw [hoperands] at hf
    cases hf
    refine ⟨rfl, l.name, List.mem_cons_self, rfl, ?_⟩
    simp [Concerns, hoperands, SourceLine.name]
  | cons token rest =>
    rw [hoperands] at hf
    have hmem : token ∈ l.name :: l.operands := by simp [hoperands]
    dsimp only at hf
    split_ifs at hf with hname hopen hknown
    · cases hf
      exact ⟨rfl, token, hmem, rfl, concerns_of_quotes (Or.inr rfl)⟩
    · cases hf
      exact ⟨rfl, token, hmem, rfl, concerns_of_quotes (functionOf_eq token.text).symm⟩
    · cases hf
      exact ⟨rfl, token, hmem, rfl, concerns_of_quotes (functionOf_eq token.text).symm⟩

/-- A fault of the functions is on one of the lines, or a function that is open before them is
never ended. -/
theorem fault_of_collectRoutines {functions : List (String × Extent)}
    {current : Option OpenRoutine} {ls : List SourceLine} {f : Fault}
    (hf : collectRoutines functions current ls = .error f) :
    (∃ l ∈ ls, f.IsOn l) ∨
      ∃ r, current = some r ∧ f = ⟨r.line, r.column, .source (.unterminatedFunction r.name)⟩ := by
  induction ls generalizing functions current with
  | nil =>
    cases current with
    | none => cases hf
    | some r =>
      cases hf
      exact Or.inr ⟨r, rfl, rfl⟩
  | cons l ls ih =>
    have hlater : (∃ l' ∈ ls, f.IsOn l') → ∃ l' ∈ l :: ls, f.IsOn l' := by
      rintro ⟨l', hmem, hon⟩
      exact ⟨l', List.mem_cons_of_mem _ hmem, hon⟩
    unfold collectRoutines at hf
    split_ifs at hf with hheader hend
    · rcases bind_eq_error.mp hf with hopen | ⟨r, hr, hrest⟩
      · exact Or.inl ⟨l, List.mem_cons_self, fault_of_openRoutine hopen⟩
      · rcases ih hrest with hon | ⟨r', hr', rfl⟩
        · exact Or.inl (hlater hon)
        · -- The function that is never ended is the one that this line opens.
          cases hr'
          obtain ⟨token, rest, hoperands, _, _, _, rfl⟩ := openRoutine_eq_ok.mp hr
          refine Or.inl ⟨l, List.mem_cons_self, rfl, token, by simp [hoperands], rfl, ?_⟩
          exact concerns_of_quotes (functionOf_eq token.text).symm
    · cases current with
      | none =>
        cases hf
        refine Or.inl ⟨l, List.mem_cons_self, rfl, l.name, List.mem_cons_self, rfl, ?_⟩
        have htext : l.name.text = "ENDFUNC" := by rw [SourceLine.name, hend, Opcode.mnemonic]
        exact concerns_of_quotes htext
      | some r =>
        rcases ih hf with hon | ⟨r', hr', _⟩
        · exact Or.inl (hlater hon)
        · cases hr'
    · rcases ih hf with hon | hopen
      · exact Or.inl (hlater hon)
      · exact Or.inr hopen

/-! ## Operands -/

/-- A stack operand that cannot be read is quoted. -/
theorem quotes_of_parse {text : String} {cause : SourceError}
    (hcause : Operand.parse text = .error cause) : Quotes text cause := by
  unfold Operand.parse at hcause
  split at hcause
  · cases hcause
  · split_ifs at hcause
    · obtain ⟨remark, rfl⟩ := Operand.cause_of_parseMemory hcause
      exact ⟨remark, rfl⟩
    · cases hcause
      rfl
    · split at hcause
      · cases hcause
      · cases hcause
        rfl

/-- So is one that cannot be popped into. -/
theorem quotes_of_resolveStackOperand {op : Opcode} {text : String} {cause : SourceError}
    (hcause : resolveStackOperand op (some text) = .error cause) : Quotes text cause := by
  rcases bind_eq_error.mp hcause with hparse | ⟨operand, _, hchecked⟩
  · exact quotes_of_parse hparse
  · cases operand with
    | imm v =>
      dsimp only at hchecked
      split at hchecked
      · cases hchecked
        rfl
      · cases hchecked
    | reg r => cases hchecked
    | mem base displacement => cases hchecked

/-- A number that cannot be read is quoted. -/
theorem quotes_of_parseCount {text : String} {cause : SourceError}
    (hcause : parseCount text = .error cause) : Quotes text cause := by
  unfold parseCount at hcause
  split at hcause
  · cases hcause
  · cases hcause
    rfl

namespace Scope

variable {s : Scope} {l : SourceLine}

/-- A label that is not defined, or only at the end of the program, is quoted, and so is a word that
is no label. -/
theorem quotes_of_resolveLabel {text : String} {cause : SourceError}
    (hcause : s.resolveLabel text = .error cause) : Quotes text cause := by
  unfold resolveLabel at hcause
  split at hcause
  · cases hcause
    rfl
  · rename_i name hlabel
    have htext := labelOf?_eq_some.mp hlabel
    split at hcause
    · cases hcause
      exact htext
    · split at hcause
      · cases hcause
      · cases hcause
        exact htext

/-- A function that is not defined is named. -/
theorem quotes_of_resolveFunction {text : String} {cause : SourceError}
    (hcause : s.resolveFunction text = .error cause) : Quotes text cause := by
  unfold resolveFunction at hcause
  split at hcause
  · cases hcause
    exact Or.inl (functionOf_eq text).symm
  · cases hcause

/-- A token that gives no doubles is what the cause is about. -/
theorem concerns_of_resolve {kind : OperandKind} {token : Token} {cause : Error}
    (hcause : s.resolve l kind (some token.text) = .error cause) :
    Concerns l.name l.operands token cause := by
  -- The numbers and names of a token are read first, and they fail with a cause that quotes it.
  have hquoted {α : Type} {x : Except SourceError α}
      (hx : ∀ cause, x = .error cause → Quotes token.text cause)
      (herror : x.mapError Error.source = .error cause) :
      Concerns l.name l.operands token cause := by
    obtain ⟨cause', herror', rfl⟩ := mapError_eq_error.mp herror
    exact concerns_of_quotes (hx cause' herror')
  cases kind with
  | location => cases hcause
  | mode =>
    rcases bind_eq_error.mp hcause with herror | ⟨_, _, hpure⟩
    · exact hquoted (fun _ => quotes_of_resolveStackOperand) herror
    · cases hpure
  | target =>
    rcases bind_eq_error.mp hcause with herror | ⟨_, _, hpure⟩
    · exact hquoted (fun _ => quotes_of_resolveLabel) herror
    · cases hpure
  | function | bodyEnd =>
    rcases bind_eq_error.mp hcause with herror | ⟨_, _, hpure⟩
    · exact hquoted (fun _ => quotes_of_resolveFunction) herror
    · cases hpure
  | count | slot =>
    rcases bind_eq_error.mp hcause with herror | ⟨_, _, hpure⟩
    · exact hquoted (fun _ => quotes_of_parseCount) herror
    · cases hpure
  | length =>
    rcases bind_eq_error.mp hcause with herror | ⟨n, hn, hguard⟩
    · exact hquoted (fun _ => quotes_of_parseCount) herror
    · rw [← guard_eq_error hguard]
      exact ⟨rfl, n, mapError_eq_ok.mp hn, rfl⟩
  | frameSize =>
    rcases bind_eq_error.mp hcause with herror | ⟨n, _, hguard⟩
    · exact hquoted (fun _ => quotes_of_parseCount) herror
    · rw [← guard_eq_error hguard]
      rfl

/-- A row of operands with a token for each is at fault at one of the tokens. -/
theorem fault_of_resolveAll {kinds : List OperandKind} {tokens : List Token} {f : Fault}
    (hlength : tokens.length = kinds.length) (hf : s.resolveAll l kinds tokens = .error f) :
    f.line = l.number ∧ ∃ token ∈ tokens, f.column = token.column ∧
      Concerns l.name l.operands token f.cause := by
  induction kinds generalizing tokens with
  | nil => cases hf
  | cons kind kinds ih =>
    cases tokens with
    | nil => cases hlength
    | cons token tokens =>
      rw [resolveAll] at hf
      rcases bind_eq_error.mp hf with herror | ⟨values, _, hrest⟩
      · obtain ⟨cause, hcause, rfl⟩ := mapError_eq_error.mp herror
        exact ⟨rfl, token, List.mem_cons_self, rfl, concerns_of_resolve hcause⟩
      · rcases bind_eq_error.mp hrest with hlater | ⟨_, _, hpure⟩
        · obtain ⟨hline, token', hmem, hplace⟩ := ih (Nat.succ.inj hlength) hlater
          exact ⟨hline, token', List.mem_cons_of_mem _ hmem, hplace⟩
        · cases hpure

/-- A line that gives no instruction is at fault. -/
theorem fault_of_emit {f : Fault} (hf : s.emit l = .error f) : f.IsOn l := by
  unfold emit at hf
  by_cases harity : l.hasArity = true
  · rw [if_pos harity] at hf
    rcases bind_eq_error.mp hf with hoperands | ⟨_, _, hpure⟩
    · rcases SourceLine.hasArity_eq_true.mp harity with hlength | ⟨hpop, hnil⟩
      · obtain ⟨hline, token, hmem, hplace⟩ := fault_of_resolveAll hlength hoperands
        exact ⟨hline, token, List.mem_cons_of_mem _ hmem, hplace⟩
      · -- A pop that goes without its token discards a value, and nothing is at fault.
        rw [hpop, hnil] at hoperands
        cases hoperands
    · cases hpure
  · rw [if_neg harity] at hf
    cases hf
    refine ⟨rfl, _, getD_mem_cons l.name l.operands l.opcode.tokenCount, ?_, rfl, rfl, rfl⟩
    cases l.operands[l.opcode.tokenCount]? with
    | none => rfl
    | some token => rfl

end Scope

/-! ## Source texts -/

/-- An assembly that fails has a fault on one of the numbered lines. -/
theorem exists_line_of_assemble {source : String} {f : Fault} (hf : assemble source = .error f) :
    ∃ line, (line, f.line) ∈ (Text.lines source.toList).zipIdx 1 ∧ f.PointsInto line := by
  have hinstructions : instructions source = .error f := by
    rcases bind_eq_error.mp hf with herror | ⟨_, _, hpure⟩
    · exact herror
    · cases hpure
  rcases bind_eq_error.mp hinstructions with hlayout | ⟨l, hl, hrest⟩
  · exact exists_line_of_collect hlayout
  · -- From here on the fault is on one of the lines of the layout.
    have hon : ∃ line ∈ l.lines, f.IsOn line := by
      rcases bind_eq_error.mp hrest with hroutines | ⟨fs, _, hemit⟩
      · rcases fault_of_collectRoutines hroutines with hon | ⟨r, hr, _⟩
        · exact hon
        · cases hr
      · obtain ⟨line, hmem, herror⟩ := mapM_eq_error hemit
        exact ⟨line, hmem, Scope.fault_of_emit herror⟩
    obtain ⟨line, hmem, hnumber, token, htoken, hcolumn, hconcerns⟩ := hon
    obtain ⟨chars, hchars, htokens⟩ := exists_line_of_mem hl line hmem
    rw [← hnumber] at hchars
    exact ⟨chars, hchars, pointsInto_of_mem htokens htoken hcolumn hconcerns⟩

/-! ## Diagnostics -/

/-- A number at the right of four places, as the margin of a diagnostic has it. -/
def marginNumber (n : Nat) : String :=
  String.ofList (List.replicate (4 - (toString n).length) ' ') ++ toString n

/-- A text is a line without the carriage returns at its end. -/
def IsStripped (line shown : List Char) : Prop :=
  (∃ count, line = shown ++ List.replicate count '\r') ∧ shown.getLast? ≠ some '\r'

/-- A line is a stripped one and the returns at its end. -/
theorem isStripped_stripReturns (line : List Char) : IsStripped line (Error.stripReturns line) := by
  refine ⟨⟨(line.reverse.takeWhile (· == '\r')).length, ?_⟩, ?_⟩
  · have hreturns : ∀ c ∈ line.reverse.takeWhile (· == '\r'), c = '\r' := by
      intro c hc
      have hall := List.all_eq_true.mp (List.all_takeWhile (p := (· == '\r')) (l := line.reverse))
      exact eq_of_beq (hall c hc)
    rw [← List.reverse_replicate, ← List.eq_replicate_of_mem hreturns, Error.stripReturns,
      ← List.reverse_append, List.takeWhile_append_dropWhile, List.reverse_reverse]
  · have hfirst := List.head?_dropWhile_not (· == '\r') line.reverse
    rw [Error.stripReturns, List.getLast?_reverse]
    intro hlast
    rw [hlast] at hfirst
    cases hfirst

/-- The line that a diagnostic shows has its number before it and a mark under the column. -/
theorem excerpt_eq (line column : Nat) (text : List Char) :
    Error.excerpt line column text =
      "  |\n" ++ marginNumber line ++ " | " ++ String.ofList (Error.stripReturns text) ++ "\n  | " ++
        String.ofList (List.replicate (column - 1) ' ') ++ "^" := by
  have hnumber : String.ofList ((Nat.toDigits 10 line).leftpad 4 ' ') = marginNumber line := by
    have hlength : (toString line).length = (Nat.toDigits 10 line).length := String.length_ofList
    rw [marginNumber, hlength, List.leftpad, String.ofList_append]
    rfl
  rw [← hnumber]
  rfl

/-- Every assembly that fails points into its source text.  The line exists.  At the column one
of its tokens starts that the fault is about or, if a bracket is not closed, the last opening
bracket stands there.  The diagnostic shows the message, the place, and that line without the
returns at its end, between its number and a mark under the column. -/
theorem fault_located {source : String} {f : Fault} (hf : assemble source = .error f) :
    1 ≤ f.line ∧ f.line ≤ (Text.lines source.toList).length ∧
    ∃ line shown, (Text.lines source.toList)[f.line - 1]? = some line ∧ f.PointsInto line ∧
      f.toError = .assembly f.line f.column f.cause.message ∧ IsStripped line shown ∧
      ∀ file, f.toError.diagnostic file source =
        s!"error: {f.cause.message}\n --> {file}:{f.line}:{f.column}\n" ++
          ("  |\n" ++ marginNumber f.line ++ " | " ++ String.ofList shown ++ "\n  | " ++
            String.ofList (List.replicate (f.column - 1) ' ') ++ "^") := by
  obtain ⟨line, hmem, hpoints⟩ := exists_line_of_assemble hf
  obtain ⟨hone, hline⟩ := List.mk_mem_zipIdx_iff_le_and_getElem?_sub.mp hmem
  obtain ⟨hlt, _⟩ := List.getElem?_eq_some_iff.mp hline
  refine ⟨hone, by omega, line, Error.stripReturns line, hline, hpoints, rfl,
    isStripped_stripReturns line, fun file => ?_⟩
  simp only [Fault.toError, Error.diagnostic, hline, excerpt_eq]

/-- A function that is never ended, two lines before the end of the text.  Its line ends with two
returns, one of which belongs to the line feed. -/
def endlessExample : String := "PUSH 1\n FD :ä, 1 0 # é\r\r\n\nRET\n"

/-- A bracket that is not closed, after a character of two bytes. -/
def unclosedExample : String := "END\nPOP [é[rax # 1"

/-- The two places and what is shown of them. -/
theorem fault_located_examples :
    (assemble endlessExample = .error ⟨2, 5, .source (.unterminatedFunction "ä")⟩ ∧
      (∃ line shown, (Text.lines endlessExample.toList)[1]? = some line ∧
        Fault.PointsInto ⟨2, 5, .source (.unterminatedFunction "ä")⟩ line ∧
        IsStripped line shown ∧ shown ≠ line) ∧
      Error.diagnostic "prog.asm" endlessExample
          (Fault.toError ⟨2, 5, .source (.unterminatedFunction "ä")⟩) =
        "error: function ä is missing its ENDFUNC\n --> prog.asm:2:5\n  |\n" ++
          "   2 |  FD :ä, 1 0 # é\n  |     ^") ∧
    assemble unclosedExample = .error ⟨2, 8, .source .unterminatedBracket⟩ ∧
      (∃ line, (Text.lines unclosedExample.toList)[1]? = some line ∧
        Fault.PointsInto ⟨2, 8, .source .unterminatedBracket⟩ line) ∧
      Error.diagnostic "prog.asm" unclosedExample
          (Fault.toError ⟨2, 8, .source .unterminatedBracket⟩) =
        "error: unterminated memory operand\n --> prog.asm:2:8\n  |\n" ++
          "   2 | POP [é[rax # 1\n  |        ^" := by
  have hendless : assemble endlessExample = .error ⟨2, 5, .source (.unterminatedFunction "ä")⟩ := by
    decide +kernel
  have hunclosed : assemble unclosedExample = .error ⟨2, 8, .source .unterminatedBracket⟩ := by
    decide +kernel
  have hlast : (Text.lines endlessExample.toList)[1]?.bind List.getLast? = some '\r' := by
    decide +kernel
  obtain ⟨_, _, line, shown, hline, hpoints, _, hstripped, _⟩ := fault_located hendless
  have hline : (Text.lines endlessExample.toList)[1]? = some line := hline
  obtain ⟨_, _, line', _, hline', hpoints', _⟩ := fault_located hunclosed
  refine ⟨⟨hendless, ⟨line, shown, hline, hpoints, hstripped, ?_⟩, by decide +kernel⟩, hunclosed,
    ⟨line', hline', hpoints'⟩, by decide +kernel⟩
  rintro rfl
  rw [hline] at hlast
  exact hstripped.2 hlast

end Assembly

end StackMachine
