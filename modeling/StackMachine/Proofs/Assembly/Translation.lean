import StackMachine.Proofs.Assembly.Verified
import StackMachine.Proofs.Assembly.Words
import StackMachine.Proofs.Double.Value

/-!
# Assembled programs translate their source texts

A source text is read here as rows of words, one row to a line.  A row that starts with a
colon defines a label, an empty row says nothing, and every other row is an instruction.
The program of a source text is then described without layouts and scopes: its instructions
are the instruction rows in order, one after the other from the start of the code, and each
operand is what the words of its row say.

Main definitions:

- `wordRows`, the rows of words of a source text;
- `bareName`, the name that a word gives a function;
- `Spells`, what an operand is, given the rows and the other instructions;
- `Translation`, the instructions that rows of words stand for.

Main results:

- Theorem `rows_of_collect`: the instruction rows are the lines of the layout.
- Theorem `label_row_of_collect`: a label is defined by one row, and stands for the place of
  the first instruction row after it.
- Theorem `translation_of_assemble`: an assembled program translates its source text.
-/

namespace StackMachine

open Double (maxIndex)
open Fallible

/-- An operand is the given natural number, without rounding. -/
def Placed.Holds (d : Placed) (k n : Nat) : Prop :=
  d.operand k = Double.ofNat n ∧ (d.operand k).Denotes n

/-- An opcode is found by its mnemonic only. -/
theorem Opcode.eq_mnemonic {word : String} {op : Opcode}
    (hop : Opcode.ofMnemonic? word = some op) : word = op.mnemonic := by
  have hfound := List.find?_some hop
  exact (eq_of_beq hfound).symm

namespace Assembly

/-! ## Rows of words -/

/-- The words of a line. -/
def lineWords (line : List Char) : Except Nat (List String) :=
  List.map Token.text <$> tokenize line

/-- The rows of words of a source text, one to a line. -/
def wordRows (source : String) : Except Nat (List (List String)) :=
  (Text.lines source.toList).mapM lineWords

/-- A source text has the given rows exactly when its numbered lines have them. -/
theorem wordRows_eq_ok {source : String} {rows : List (List String)} :
    wordRows source = .ok rows ↔ List.Forall₂ (fun x row => lineWords x.1 = .ok row)
      ((Text.lines source.toList).zipIdx 1) rows := by
  have hlines := List.zipIdx_map_fst 1 (Text.lines source.toList)
  rw [wordRows, mapM_eq_ok]
  nth_rewrite 1 [← hlines]
  rw [List.forall₂_map_left_iff]

/-- Whether a row is an instruction: it has a word, and the first is not a label. -/
def isInstructionRow : List String → Bool
  | [] => false
  | first :: _ => (labelOf? first).isNone

/-- The rows that are instructions. -/
def instructionRows (rows : List (List String)) : List (List String) :=
  rows.filter isInstructionRow

/-- A word without its leading colon, if it has one. -/
def bareName (word : String) : String :=
  String.ofList (if word.toList.head? = some ':' then word.toList.tail else word.toList)

/-- A word refers to a function by its name, with one leading colon or without. -/
theorem functionOf_eq (word : String) : functionOf word = bareName word := by
  unfold functionOf labelOf? bareName
  split
  · rename_i name hchars
    simp [hchars]
  · rename_i hchars
    have hhead : word.toList.head? ≠ some ':' := by
      intro hcolon
      rcases List.head?_eq_some_iff.mp hcolon with ⟨name, hname⟩
      exact hchars name hname
    rw [if_neg hhead, Option.getD_none, String.ofList_toList]

/-- The instruction with the given number heads a function of the given name. -/
def Heads (rows : List (List String)) (ds : List Placed) (name : String) (j : Nat) (d : Placed) :
    Prop :=
  ds[j]? = some d ∧ d.opcode.isHeader = true ∧
    ∃ row word, (instructionRows rows)[j]? = some row ∧ row[1]? = some word ∧ bareName word = name

/-- What the operand with number `k` of the instruction with number `i` is, by its kind.  The
word for it is the one with number `k` after the mnemonic. -/
def Spells (rows : List (List String)) (ds : List Placed) (i : Nat) (row : List String) (d : Placed)
    (kind : OperandKind) (k : Nat) : Prop :=
  match kind with
  | .mode =>
    ∃ x, Operand.decode d.opcode.mnemonic d.offset (d.operand k) (d.operand (k + 1)) = .ok x ∧
      match row[k + 1]? with
      | some word => Operand.parse word = .ok x
      | none => d.opcode = .pop ∧ x = .imm Double.zero
  -- A location has no word of its own: it is decoded together with the mode.
  | .location => True
  | .target =>
    ∃ name before after target, row[k + 1]? = some (":" ++ name) ∧
      rows = before ++ [":" ++ name] :: after ∧ [":" ++ name] ∉ before ∧ [":" ++ name] ∉ after ∧
      ds[(instructionRows before).length]? = some target ∧ d.Holds k target.offset
  | .function =>
    ∃ word j header, row[k + 1]? = some word ∧ Heads rows ds (bareName word) j header ∧
      (∀ j' header', Heads rows ds (bareName word) j' header' → j' = j) ∧
      d.Holds k header.offset
  | .bodyEnd =>
    ∃ body mark later, ds.drop (i + 1) = body ++ mark :: later ∧
      (∀ e ∈ body, e.opcode ≠ .endFunc) ∧ mark.opcode = .endFunc ∧ d.Holds k mark.next
  | .count | .slot | .frameSize | .length =>
    ∃ word n, row[k + 1]? = some word ∧ parseCount word = .ok n ∧ d.Holds k n

/-- Instructions that rows of words stand for. -/
structure Translation (rows : List (List String)) (ds : List Placed) : Prop where
  /-- There is one instruction to each instruction row, with its mnemonic. -/
  mnemonics : (instructionRows rows).map List.head? = ds.map fun d => some d.opcode.mnemonic
  /-- A row has a word for each operand that is written; a pop may go without. -/
  words : ∀ (i : Nat) row d, (instructionRows rows)[i]? = some row → ds[i]? = some d →
    row.length = 1 + d.opcode.tokenCount ∨ d.opcode = .pop ∧ row.length = 1
  /-- The instructions follow one another from the start of the code. -/
  offsets : ∀ (i : Nat) d, ds[i]? = some d →
    d.offset = 6 + ((ds.take i).map fun e => e.opcode.size).sum
  /-- The operands are what the words say. -/
  operands : ∀ (i : Nat) row d, (instructionRows rows)[i]? = some row → ds[i]? = some d →
    ∀ x ∈ d.opcode.operands.zipIdx, Spells rows ds i row d x.1 x.2

/-! ## Rows and statements -/

/-- A word is a label exactly when it is a name after a colon. -/
theorem labelOf?_eq_some {word name : String} : labelOf? word = some name ↔ word = ":" ++ name := by
  unfold labelOf?
  constructor
  · intro hlabel
    split at hlabel
    · rename_i cs hcs
      cases hlabel
      simp [← String.toList_inj, hcs]
    · cases hlabel
  · rintro rfl
    simp [String.toList_append]

/-- The row of words of an instruction line. -/
def SourceLine.row (l : SourceLine) : List String := l.opcode.mnemonic :: l.operands.map Token.text

/-- The row of words that a statement is read from. -/
def Statement.IsReadFrom (statement : Statement) (row : List String) : Prop :=
  match statement with
  | .blank => row = []
  | .label name _ => row = [":" ++ name]
  | .instruction op _ operands =>
    row = op.mnemonic :: operands.map Token.text ∧ isInstructionRow row = true

/-- The tokens that a statement is read from. -/
def Statement.tokens : Statement → List Token
  | .blank => []
  | .label name column => [⟨":" ++ name, column⟩]
  | .instruction op column operands => ⟨op.mnemonic, column⟩ :: operands

/-- What a line says is made of its tokens. -/
theorem tokenize_of_readLine {number : Nat} {line : List Char} {statement : Statement}
    (hread : readLine number line = .ok statement) : tokenize line = .ok statement.tokens := by
  unfold readLine at hread
  split at hread
  · cases hread
  · rename_i htokens
    cases hread
    exact htokens
  · rename_i first operands htokens
    split at hread
    · rename_i name hlabel
      split at hread
      · cases hread
      · rename_i hwell
        have hoperands : operands = [] := not_not.mp fun hne => hwell (Or.inr hne)
        cases hread
        rw [htokens, hoperands, Statement.tokens, ← labelOf?_eq_some.mp hlabel]
    · split at hread
      · rename_i op hop
        cases hread
        rw [htokens, Statement.tokens, ← Opcode.eq_mnemonic hop]
      · cases hread

/-- What a line says is what its row of words says. -/
theorem isReadFrom_of_readLine {number : Nat} {line : List Char} {statement : Statement}
    (hread : readLine number line = .ok statement) :
    ∃ row, lineWords line = .ok row ∧ statement.IsReadFrom row := by
  refine ⟨_, map_eq_ok.mpr ⟨_, tokenize_of_readLine hread, rfl⟩, ?_⟩
  cases statement with
  | blank => rfl
  | label name column => rfl
  | instruction op column operands =>
    refine ⟨rfl, ?_⟩
    rw [Statement.tokens, List.map_cons, isInstructionRow, (isWord_mnemonic op).2]
    rfl

/-- A row with a label is no instruction. -/
theorem instructionRows_cons_label (name : String) (rows : List (List String)) :
    instructionRows ([":" ++ name] :: rows) = instructionRows rows := by
  rw [instructionRows, List.filter_cons_of_neg]
  · rfl
  · simp [isInstructionRow, labelOf?_eq_some.mpr rfl]

theorem instructionRows_cons {row : List String} (hrow : isInstructionRow row = true)
    (rows : List (List String)) : instructionRows (row :: rows) = row :: instructionRows rows := by
  rw [instructionRows, List.filter_cons_of_pos hrow, instructionRows]

section Collect

variable {labels : List (String × Nat)} {offset : Nat} {numbered : List (List Char × Nat)}
  {layout : Layout}

/-- The lines that have been laid out have rows of words, and the instruction rows are the
lines of the layout. -/
theorem rows_of_collect (hcollect : collect labels offset numbered = .ok layout) :
    ∃ rows, List.Forall₂ (fun x row => lineWords x.1 = .ok row) numbered rows ∧
      instructionRows rows = layout.lines.map SourceLine.row := by
  induction numbered generalizing labels offset layout with
  | nil =>
    cases hcollect
    exact ⟨[], List.Forall₂.nil, rfl⟩
  | cons head rest ih =>
    rcases collect_cons_eq_ok.mp hcollect with ⟨statement, hread, hrest⟩
    rcases isReadFrom_of_readLine hread with ⟨row, hrow, hfrom⟩
    cases statement with
    | blank =>
      rcases ih hrest with ⟨rows, hrows, hlines⟩
      cases hfrom
      exact ⟨[] :: rows, List.Forall₂.cons hrow hrows, hlines⟩
    | label name column =>
      rcases ih hrest.2 with ⟨rows, hrows, hlines⟩
      cases hfrom
      refine ⟨_ :: rows, List.Forall₂.cons hrow hrows, ?_⟩
      rw [instructionRows_cons_label, hlines]
    | instruction op column operands =>
      rcases hrest with ⟨tail, htail, rfl⟩
      rcases ih htail with ⟨rows, hrows, hlines⟩
      rcases hfrom with ⟨rfl, hinstruction⟩
      refine ⟨_ :: rows, List.Forall₂.cons hrow hrows, ?_⟩
      rw [instructionRows_cons hinstruction, hlines]
      rfl

/-- A label that is known was known before, and no row defines it, or one row does, and the
lines after that row start where the label stands for. -/
theorem label_row_of_collect (hcollect : collect labels offset numbered = .ok layout)
    {rows : List (List String)}
    (hrows : List.Forall₂ (fun x row => lineWords x.1 = .ok row) numbered rows)
    {name : String} {target : Nat} (hlookup : layout.labels.lookup name = some target) :
    (labels.lookup name = some target ∧ [":" ++ name] ∉ rows) ∨
    (labels.lookup name = none ∧ ∃ before after, rows = before ++ [":" ++ name] :: after ∧
      [":" ++ name] ∉ before ∧ [":" ++ name] ∉ after ∧
      LaidOut target (layout.lines.drop (instructionRows before).length) layout.length) := by
  induction hrows generalizing labels offset layout with
  | nil =>
    cases hcollect
    exact Or.inl ⟨hlookup, by simp⟩
  | @cons head row rest rows hrow _ ih =>
    rcases collect_cons_eq_ok.mp hcollect with ⟨statement, hread, hrest⟩
    rcases isReadFrom_of_readLine hread with ⟨row', hrow', hfrom⟩
    rw [hrow] at hrow'
    cases hrow'
    cases statement with
    | blank =>
      cases hfrom
      rcases ih hrest hlookup with ⟨hold, hnone⟩ |
        ⟨hnew, before, after, rfl, hbefore, hafter, hlaid⟩
      · exact Or.inl ⟨hold, by simp [hnone]⟩
      · exact Or.inr ⟨hnew, [] :: before, after, rfl, by simp [hbefore], hafter, hlaid⟩
    | label name' column =>
      cases hfrom
      rcases hrest with ⟨hfresh, hrest⟩
      have hrow_ne (hne : name ≠ name') : [":" ++ name] ≠ [":" ++ name'] := by
        simpa [String.append_right_inj] using hne
      rcases ih hrest hlookup with ⟨hold, hnone⟩ |
        ⟨hnew, before, after, rfl, hbefore, hafter, hlaid⟩
      · by_cases heq : name = name'
        · subst heq
          rw [List.lookup_cons_self] at hold
          cases hold
          exact Or.inr ⟨hfresh, [], rows, rfl, by simp, hnone, laidOut_of_collect hrest⟩
        · rw [List.lookup_cons, beq_false_of_ne heq] at hold
          refine Or.inl ⟨hold, ?_⟩
          rw [List.mem_cons, not_or]
          exact ⟨hrow_ne heq, hnone⟩
      · have heq : name ≠ name' := by
          rintro rfl
          rw [List.lookup_cons_self] at hnew
          cases hnew
        rw [List.lookup_cons, beq_false_of_ne heq] at hnew
        refine Or.inr ⟨hnew, [":" ++ name'] :: before, after, rfl, ?_, hafter, ?_⟩
        · rw [List.mem_cons, not_or]
          exact ⟨hrow_ne heq, hbefore⟩
        · rwa [instructionRows_cons_label]
    | instruction op column operands =>
      rcases hrest with ⟨tail, htail, rfl⟩
      rcases hfrom with ⟨rfl, hinstruction⟩
      have hrow_ne : [":" ++ name] ≠ op.mnemonic :: operands.map Token.text := by
        intro heq
        rw [← heq] at hinstruction
        simp [isInstructionRow, labelOf?_eq_some.mpr rfl] at hinstruction
      rcases ih htail hlookup with ⟨hold, hnone⟩ |
        ⟨hnew, before, after, rfl, hbefore, hafter, hlaid⟩
      · refine Or.inl ⟨hold, ?_⟩
        rw [List.mem_cons, not_or]
        exact ⟨hrow_ne, hnone⟩
      · refine Or.inr ⟨hnew, _ :: before, after, rfl, ?_, hafter, ?_⟩
        · rw [List.mem_cons, not_or]
          exact ⟨hrow_ne, hbefore⟩
        · rw [instructionRows_cons hinstruction]
          exact hlaid

end Collect

/-! ## Operands -/

/-- A list is split at each of its places. -/
theorem split_of_getElem? {α : Type} {as : List α} {i : Nat} {a : α} (ha : as[i]? = some a) :
    as = as.take i ++ a :: as.drop (i + 1) := by
  rcases List.getElem?_eq_some_iff.mp ha with ⟨hi, rfl⟩
  rw [List.getElem_cons_drop, List.take_append_drop]

/-- The first end mark of placed instructions. -/
theorem mark_of_endAfter {ds : List Placed} {finish : Nat}
    (hend : endAfter (ds.map Placed.site) = some finish) :
    ∃ body mark later, ds = body ++ mark :: later ∧ (∀ e ∈ body, e.opcode ≠ .endFunc) ∧
      mark.opcode = .endFunc ∧ mark.next = finish := by
  rw [endAfter, List.find?_map] at hend
  rcases Option.map_eq_some_iff.mp hend with ⟨_, hfind, rfl⟩
  rcases Option.map_eq_some_iff.mp hfind with ⟨mark, hmark, rfl⟩
  rcases List.find?_eq_some_iff_append.mp hmark with ⟨hop, body, later, rfl, hbody⟩
  refine ⟨body, mark, later, rfl, ?_, eq_of_beq hop, rfl⟩
  intro e he heq
  have hnot := hbody e he
  simp [Placed.site, heq] at hnot

/-- A word is resolved to the stack operand that it is the text of. -/
theorem parse_of_resolveStackOperand {op : Opcode} {word : String} {x : Operand}
    (hx : resolveStackOperand op (some word) = .ok x) : Operand.parse word = .ok x := by
  rcases bind_eq_ok.mp hx with ⟨operand, hoperand, hchecked⟩
  cases operand with
  | imm v =>
    dsimp only at hchecked
    split at hchecked
    · cases hchecked
    · cases hchecked
      exact hoperand
  | reg r =>
    cases hchecked
    exact hoperand
  | mem base displacement =>
    cases hchecked
    exact hoperand

/-- A line has as many words as its opcode asks for, or is a pop without any. -/
theorem SourceLine.hasArity_eq_true {l : SourceLine} :
    l.hasArity = true ↔
      l.operands.length = l.opcode.tokenCount ∨ l.opcode = .pop ∧ l.operands = [] := by
  simp [hasArity]

/-- The operand of a push or a pop is the one its word is read as; only a pop goes without. -/
theorem stack_operand_of_resolve {l : SourceLine} {x : Operand} (hop : l.opcode.isStack = true)
    (harity : l.hasArity = true)
    (hx : resolveStackOperand l.opcode (l.operands.head?.map Token.text) = .ok x) :
    match l.row[1]? with
    | some word => Operand.parse word = .ok x
    | none => l.opcode = .pop ∧ x = .imm Double.zero := by
  cases hoperands : l.operands with
  | nil =>
    rw [hoperands] at hx
    cases hx
    have hpop : l.opcode = .pop := by
      rcases SourceLine.hasArity_eq_true.mp harity with hlength | ⟨hpop, _⟩
      · rw [hoperands, Opcode.tokenCount, Opcode.operands_of_isStack hop] at hlength
        cases hlength
      · exact hpop
    simpa [SourceLine.row, hoperands] using hpop
  | cons token rest =>
    rw [hoperands] at hx
    simpa [SourceLine.row, hoperands] using parse_of_resolveStackOperand hx

/-- A program with the source text it is assembled from, and what is found on the way. -/
structure Assembled (source : String) (p : Program) (rows : List (List String)) (l : Layout)
    (fs : List (String × Extent)) (ds : List Placed) : Prop where
  layout_eq : layout source = .ok l
  routines_eq : l.routines = .ok fs
  decode_eq : p.decode = .ok ds
  size_eq : p.size = l.length
  realizes : Realizes l fs ds
  forall₂_rows : List.Forall₂ (fun x row => lineWords x.1 = .ok row)
    ((Text.lines source.toList).zipIdx 1) rows
  rows_eq : instructionRows rows = l.lines.map SourceLine.row

/-- A program that is assembled has rows, a layout, functions and instructions that fit together. -/
theorem assembled_of_assemble {source : String} {p : Program} (hp : assemble source = .ok p) :
    ∃ rows l fs ds, Assembled source p rows l fs ds := by
  rcases placed_of_assemble hp with ⟨l, fs, ds, hl, hfs, hds, hsize, hreal⟩
  rcases rows_of_collect hl with ⟨rows, hrows, hlines⟩
  exact ⟨rows, l, fs, ds, hl, hfs, hds, hsize, hreal, hrows, hlines⟩

namespace Assembled

variable {source : String} {p : Program} {rows : List (List String)} {l : Layout}
  {fs : List (String × Extent)} {ds : List Placed}

theorem wordRows_eq (h : Assembled source p rows l fs ds) : wordRows source = .ok rows :=
  wordRows_eq_ok.mpr h.forall₂_rows

/-- An instruction is that of the line with its number. -/
theorem line_of_getElem? (h : Assembled source p rows l fs ds) {i : Nat} {d : Placed}
    (hd : ds[i]? = some d) :
    ∃ line, l.lines[i]? = some line ∧ (instructionRows rows)[i]? = some line.row ∧
      d.site = line.site ∧ (l.scope fs).emit line = .ok d.toInstruction := by
  rcases getElem?_of_forall₂ h.realizes hd with ⟨line, hline, hsite, hemit⟩
  refine ⟨line, hline, ?_, hsite, hemit⟩
  rw [h.rows_eq, List.getElem?_map, hline, Option.map_some]

/-- Each line has its instruction, with its opcode and at its offset. -/
theorem placed_of_line (h : Assembled source p rows l fs ds) {i : Nat} {line : SourceLine}
    (hline : l.lines[i]? = some line) :
    ∃ d, ds[i]? = some d ∧ d.opcode = line.opcode ∧ d.offset = line.offset := by
  rcases getElem?_of_forall₂ h.realizes.flip hline with ⟨d, hd, hsite, _⟩
  exact ⟨d, hd, congrArg Prod.fst hsite, congrArg Prod.snd hsite⟩

/-- Instructions have different offsets. -/
theorem eq_of_offset_eq (h : Assembled source p rows l fs ds) {i j : Nat} {d e : Placed}
    (hd : ds[i]? = some d) (he : ds[j]? = some e) (hoffset : d.offset = e.offset) : i = j := by
  have hsorted := List.pairwise_iff_getElem.mp (Program.pairwise_of_decode h.decode_eq)
  rcases List.getElem?_eq_some_iff.mp hd with ⟨hi, rfl⟩
  rcases List.getElem?_eq_some_iff.mp he with ⟨hj, rfl⟩
  rcases Nat.lt_trichotomy i j with hlt | heq | hgt
  · exact absurd hoffset (hsorted i j hi hj hlt).ne
  · exact heq
  · exact absurd hoffset (hsorted j i hj hi hgt).ne'

/-- A label stands for the first instruction after the row that defines it. -/
theorem label_of_names (h : Assembled source p rows l fs ds) {word : String} {n : Nat}
    (hn : (l.scope fs).Names .target word n) :
    ∃ name before after target, word = ":" ++ name ∧
      rows = before ++ [":" ++ name] :: after ∧ [":" ++ name] ∉ before ∧ [":" ++ name] ∉ after ∧
      ds[(instructionRows before).length]? = some target ∧ target.offset = n := by
  rcases Scope.resolveLabel_eq_ok.mp hn with ⟨name, hlabel, hlookup, hlt⟩
  rcases label_row_of_collect h.layout_eq h.forall₂_rows hlookup with
    ⟨hnone, _⟩ | ⟨_, before, after, hrows, hbefore, hafter, hlaid⟩
  · cases hnone
  · -- The label is not at the end, so a line is left where it stands for.
    rcases hdrop : l.lines.drop (instructionRows before).length with _ | ⟨line, rest⟩
    · rw [hdrop] at hlaid
      exact absurd hlaid hlt.ne'
    · rw [hdrop] at hlaid
      have hline : l.lines[(instructionRows before).length]? = some line := by
        rw [← List.head?_drop, hdrop, List.head?_cons]
      rcases h.placed_of_line hline with ⟨target, htarget, _, hoffset⟩
      exact ⟨name, before, after, target, labelOf?_eq_some.mp hlabel, hrows, hbefore, hafter,
        htarget, hoffset.trans hlaid.1⟩

/-- The line of a header has its name, and the functions found have it with its offset. -/
theorem lookup_of_heads (h : Assembled source p rows l fs ds) {name : String} {j : Nat}
    {header : Placed} (hheads : Heads rows ds name j header) :
    ∃ finish, fs.lookup name = some ⟨header.offset, finish⟩ := by
  rcases hheads with ⟨hheader, hop, row, word, hrow, hword, rfl⟩
  rcases h.line_of_getElem? hheader with ⟨line, hline, hrow', hsite, _⟩
  rw [hrow] at hrow'
  cases hrow'
  have hop' : header.opcode = line.opcode := congrArg Prod.fst hsite
  have hoffset : header.offset = line.offset := congrArg Prod.snd hsite
  rcases (lookup_of_collectRoutines h.routines_eq (by simp)).2.2 _ line _ (split_of_getElem? hline)
    (hop' ▸ hop) with ⟨token, rest, finish, hoperands, _, hlookup⟩
  have htoken : token.text = word := by simpa [SourceLine.row, hoperands] using hword
  rw [htoken, functionOf_eq, ← hoffset] at hlookup
  exact ⟨finish, hlookup⟩

/-- A function is that of the one header with its name. -/
theorem heads_of_names (h : Assembled source p rows l fs ds) {word : String} {n : Nat}
    (hn : (l.scope fs).Names .function word n) :
    ∃ j header, Heads rows ds (bareName word) j header ∧
      (∀ j' header', Heads rows ds (bareName word) j' header' → j' = j) ∧ header.offset = n := by
  rcases function_of_names h.routines_eq hn with
    ⟨line, hmem, hop, rfl, token, rest, hoperands, hname⟩
  rcases List.mem_iff_getElem?.mp hmem with ⟨j, hline⟩
  rcases h.placed_of_line hline with ⟨header, hheader, hop', hoffset⟩
  rw [functionOf_eq, functionOf_eq] at hname
  have hheads : Heads rows ds (bareName word) j header := by
    refine ⟨hheader, hop' ▸ hop, line.row, token.text, ?_, ?_, hname⟩
    · rw [h.rows_eq, List.getElem?_map, hline, Option.map_some]
    · simp [SourceLine.row, hoperands]
  refine ⟨j, header, hheads, ?_, hoffset⟩
  intro j' header' hheads'
  rcases h.lookup_of_heads hheads with ⟨finish, hlookup⟩
  rcases h.lookup_of_heads hheads' with ⟨finish', hlookup'⟩
  have hsame : header'.offset = header.offset := by
    rw [hlookup, Option.some.injEq, Extent.mk.injEq] at hlookup'
    exact hlookup'.1.symm
  exact h.eq_of_offset_eq hheads'.1 hheader hsame

/-- A function ends past the first end mark after its header. -/
theorem mark_of_names (h : Assembled source p rows l fs ds) {i n : Nat} {line : SourceLine}
    (hline : l.lines[i]? = some line) (hheader : line.opcode.isHeader = true)
    (hn : (l.scope fs).Names .bodyEnd (line.text 0) n) :
    ∃ body mark later, ds.drop (i + 1) = body ++ mark :: later ∧
      (∀ e ∈ body, e.opcode ≠ .endFunc) ∧ mark.opcode = .endFunc ∧ mark.next = n := by
  have hend := bodyEnd_of_names h.routines_eq (split_of_getElem? hline) hheader hn
  rw [List.map_drop, ← map_site_eq h.realizes, ← List.map_drop] at hend
  exact mark_of_endAfter hend

/-- A word of a line is one of its row. -/
theorem row_getElem? {line : SourceLine} {k : Nat} (hk : k < line.operands.length) :
    line.row[k + 1]? = some (line.text k) := by
  simp [SourceLine.row, SourceLine.text, hk]

/-- Each operand of an assembled instruction is what the words say. -/
theorem spells_operand (h : Assembled source p rows l fs ds) (hmax : p.size ≤ maxIndex) {i : Nat}
    {row : List String} {d : Placed} (hrow : (instructionRows rows)[i]? = some row)
    (hd : ds[i]? = some d) : ∀ x ∈ d.opcode.operands.zipIdx, Spells rows ds i row d x.1 x.2 := by
  rcases h.line_of_getElem? hd with ⟨line, hline, hrow', hsite, hemit⟩
  rw [hrow] at hrow'
  cases hrow'
  have hop : d.opcode = line.opcode := congrArg Prod.fst hsite
  rintro ⟨kind, k⟩ hx
  rw [hop] at hx
  cases hstack : line.opcode.isStack with
  | true =>
    rcases (Scope.emit_eq_ok_of_isStack hstack).mp hemit with ⟨harity, _, x, hresolve, hvalues⟩
    rw [Opcode.operands_of_isStack hstack] at hx
    have hx' : kind = .mode ∧ k = 0 ∨ kind = .location ∧ k = 1 := by simpa [List.zipIdx] using hx
    rcases hx' with ⟨rfl, rfl⟩ | ⟨rfl, rfl⟩
    · refine ⟨x, ?_, ?_⟩
      · simp only [Instruction.operand, hvalues]
        exact Operand.decode_encode _ _ x
      · rw [hop]
        exact stack_operand_of_resolve hstack harity hresolve
    · trivial
  | false =>
    rcases (Scope.emit_eq_ok hstack).mp hemit with ⟨hlength, _, _, hoperands⟩
    rcases hoperands _ hx with ⟨n, hn, hvalue⟩
    have hk : k < line.operands.length := by
      rw [hlength]
      exact (List.getElem?_eq_some_iff.mp (List.mk_mem_zipIdx_iff_getElem?.mp hx)).1
    have hword := row_getElem? hk
    have hholds (hle : n ≤ maxIndex) : d.Holds k n :=
      ⟨hvalue, hvalue ▸ Double.index?_eq_some_iff.mp (Double.index?_ofNat hle)⟩
    have hinside {e : Placed} (he : e ∈ ds) : e.next ≤ maxIndex :=
      (Program.next_le_size h.decode_eq he).trans hmax
    cases kind with
    | mode => exact absurd hn id
    | location => trivial
    | target =>
      rcases h.label_of_names hn with
        ⟨name, before, after, target, hname, hrows, hbefore, hafter, htarget, rfl⟩
      have hle := hinside (List.mem_of_getElem? htarget)
      exact ⟨name, before, after, target, hname ▸ hword, hrows, hbefore, hafter, htarget,
        hholds ((Nat.le_add_right _ _).trans hle)⟩
    | function =>
      rcases h.heads_of_names hn with ⟨j, header, hheads, hunique, rfl⟩
      have hle := hinside (List.mem_of_getElem? hheads.1)
      exact ⟨_, j, header, hword, hheads, hunique, hholds ((Nat.le_add_right _ _).trans hle)⟩
    | bodyEnd =>
      rcases isHeader_of_bodyEnd hx with ⟨hheader, rfl⟩
      rcases h.mark_of_names hline hheader hn with ⟨body, mark, later, hdrop, hbody, hmark, rfl⟩
      have hmem : mark ∈ ds := List.mem_of_mem_drop (i := i + 1) (by simp [hdrop])
      exact ⟨body, mark, later, hdrop, hbody, hmark, hholds (hinside hmem)⟩
    | count | slot => exact ⟨_, n, hword, hn, hholds (le_of_parseCount hn)⟩
    | frameSize | length => exact ⟨_, n, hword, hn.1, hholds (le_of_parseCount hn.1)⟩

/-- An assembled program translates the rows of its source text. -/
theorem translation (h : Assembled source p rows l fs ds) (hmax : p.size ≤ maxIndex) :
    Translation rows ds where
  mnemonics := by
    have hops := map_opcode_of_site (map_site_eq h.realizes)
    calc (instructionRows rows).map List.head?
        = (l.lines.map SourceLine.opcode).map fun op => some op.mnemonic := by
          rw [h.rows_eq, List.map_map, List.map_map]
          rfl
      _ = ds.map fun d => some d.opcode.mnemonic := by
          rw [← hops, List.map_map]
          rfl
  words := by
    intro i row d hrow hd
    rcases h.line_of_getElem? hd with ⟨line, _, hrow', hsite, hemit⟩
    rw [hrow] at hrow'
    cases hrow'
    have hop : d.opcode = line.opcode := congrArg Prod.fst hsite
    have hlength : line.row.length = 1 + line.operands.length := by
      simp [SourceLine.row, Nat.add_comm]
    rw [hop, hlength]
    rcases SourceLine.hasArity_eq_true.mp (Scope.emit_eq_ok_iff.mp hemit).1 with heq | ⟨hpop, hnil⟩
    · exact Or.inl (congrArg (1 + ·) heq)
    · exact Or.inr ⟨hpop, by rw [hnil]; rfl⟩
  offsets := by
    intro i d hd
    have hplaced := Program.placed_of_decode h.decode_eq
    rw [split_of_getElem? hd] at hplaced
    have hoffset := (Program.placed_of_append hplaced).2
    rw [List.map_map] at hoffset
    exact hoffset
  operands := fun _ _ _ hrow hd => h.spells_operand hmax hrow hd

end Assembled

/-- A program that assembles from a source text decodes to the translation of its rows, unless
it is too long for its offsets to be exact; it has the length that the layout gives. -/
theorem translation_of_assemble {source : String} {p : Program} (hp : assemble source = .ok p)
    (hmax : p.size ≤ 2 ^ 53) :
    ∃ rows ds l, wordRows source = .ok rows ∧ p.decode = .ok ds ∧ Translation rows ds ∧
      layout source = .ok l ∧ l.length = p.size := by
  rcases assembled_of_assemble hp with ⟨rows, l, fs, ds, h⟩
  exact ⟨rows, ds, l, h.wordRows_eq, h.decode_eq, h.translation hmax, h.layout_eq, h.size_eq.symm⟩

/-- A function with a loop, jumps over it, two labels at one place, and a pop on its own. -/
def labelsExample : String :=
  "JMP :go\n:again\nFD f, 1, 2\n:in\nPUSH [rax+3]\nJB :in\nENDFUNC\n\n:go # twice\n:on\nPOP\n" ++
  "CALL :f\nJE :on\nJMP :again\n"

/-- The source text has a translation: two labels are at one place, and a call names its function
with a colon. -/
theorem translation_labelsExample :
    ∃ p, assemble labelsExample = .ok p ∧ p.size ≤ 2 ^ 53 ∧
      ∃ rows ds l, wordRows labelsExample = .ok rows ∧ p.decode = .ok ds ∧ Translation rows ds ∧
        layout labelsExample = .ok l ∧ l.length = p.size := by
  have hsize : Program.size <$> assemble labelsExample = .ok 111 := by decide +kernel
  rcases map_eq_ok.mp hsize with ⟨p, hp, hsize⟩
  have hmax : p.size ≤ 2 ^ 53 := by omega
  exact ⟨p, hp, hmax, translation_of_assemble hp hmax⟩

end Assembly

end StackMachine
