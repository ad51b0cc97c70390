import StackMachine.Proofs.Assembly.Translation

/-!
# The language of source texts

Whether a source text assembles depends on its rows of words alone.  An assembly goes over
them three times, for the labels, for the functions and for the operands, and each time it
accepts exactly what this module lists: the passes overlap, but nothing else is refused and
nothing that is listed is let through.

Main definitions:

- `Shaped`, what a row can be;
- `labelNames`, `opcodes`, `functionNames`, what rows define;
- `Accepts`, what a word can be as an operand of some kind;
- `Accepted`, the rows that assemble.

Main results:

- Theorem `exists_collect_iff`: when rows have a layout.
- Theorem `exists_collectRoutines_iff`: when lines have functions.
- Theorem `exists_emit_iff`: when a line has an instruction.
- Theorem `assembles_iff`: which source texts assemble.
-/

namespace StackMachine

open Fallible

namespace Assembly

/-! ## Rows that assemble -/

/-- What a row can be: empty, a label, or an instruction with its operands. -/
def Shaped (row : List String) : Prop :=
  row = [] ∨ (∃ name, name ≠ "" ∧ row = [":" ++ name]) ∨
    ∃ (op : Opcode) (words : List String), row = op.mnemonic :: words

/-- The names of the labels that rows define, in order. -/
def labelNames (rows : List (List String)) : List String :=
  rows.filterMap fun row => row.head?.bind labelOf?

/-- The opcode whose mnemonic is the first word of a row. -/
def rowOpcode? (row : List String) : Option Opcode := row.head?.bind Opcode.ofMnemonic?

/-- The opcodes of the instructions among rows, in order. -/
def opcodes (rows : List (List String)) : List Opcode := rows.filterMap rowOpcode?

/-- The names of the functions that the headers among rows declare, in order. -/
def functionNames (rows : List (List String)) : List String :=
  (rows.filter fun row => (rowOpcode? row).any Opcode.isHeader).map fun row =>
    bareName (row[1]?.getD "")

/-- Whether a word is accepted as an operand of the given kind of an instruction. -/
def Accepts (rows : List (List String)) (op : Opcode) (kind : OperandKind) (word : String) : Prop :=
  match kind with
  | .mode => ∃ x, Operand.parse word = .ok x ∧ (op = .pop → ∀ v, x ≠ .imm v)
  -- A location has no word of its own, and the word of a header declares its name.
  | .location | .bodyEnd => True
  | .target =>
    ∃ name before after, word = ":" ++ name ∧ rows = before ++ [":" ++ name] :: after ∧
      instructionRows after ≠ []
  | .function => bareName word ∈ functionNames rows
  | .count | .slot => ∃ n, parseCount word = .ok n
  | .length => ∃ n, parseCount word = .ok n ∧ n < ramSize
  | .frameSize => ∃ n, parseCount word = .ok n ∧ n ≤ maxFrameSlots

/-- The rows that assemble. -/
structure Accepted (rows : List (List String)) : Prop where
  shaped : ∀ row ∈ rows, Shaped row
  labels : (labelNames rows).Nodup
  /-- Functions are not nested, and each has its end mark. -/
  alternates : Alternates (opcodes rows)
  named : "" ∉ functionNames rows
  functions : (functionNames rows).Nodup
  /-- There is a word for each operand that is written; a pop may go without. -/
  arity : ∀ (op : Opcode) words, op.mnemonic :: words ∈ rows →
    words.length = op.tokenCount ∨ op = .pop ∧ words = []
  operands : ∀ (op : Opcode) words, op.mnemonic :: words ∈ rows →
    ∀ x ∈ (op.operands.filter OperandKind.hasToken).zip words, Accepts rows op x.1 x.2

/-! ## Labels -/

/-- A name is not in a table exactly when it is neither the first one nor among the others. -/
theorem lookup_cons_eq_none {α : Type} {table : List (String × α)} {key name : String} {a : α} :
    ((key, a) :: table).lookup name = none ↔ name ≠ key ∧ table.lookup name = none := by
  rw [List.lookup_cons]
  cases hbeq : name == key with
  | true => simp [eq_of_beq hbeq]
  | false => simp [ne_of_beq_false hbeq]

/-- No mnemonic starts with a colon. -/
theorem colon_ne_mnemonic (name : String) (op : Opcode) : ":" ++ name ≠ op.mnemonic := by
  intro heq
  have hnone := (isWord_mnemonic op).2
  rw [← heq, labelOf?_colon] at hnone
  cases hnone

/-- A row that starts with a colon is a label exactly when a name follows it and nothing else. -/
theorem shaped_label_iff {name : String} {words : List String} :
    Shaped ((":" ++ name) :: words) ↔ name ≠ "" ∧ words = [] := by
  constructor
  · rintro (hnil | ⟨name', hne, hrow⟩ | ⟨op, words', hrow⟩)
    · cases hnil
    · obtain ⟨hname, rfl⟩ := List.cons.inj hrow
      rw [(String.append_right_inj _).mp hname]
      exact ⟨hne, rfl⟩
    · exact absurd (List.cons.inj hrow).1 (colon_ne_mnemonic name op)
  · rintro ⟨hne, rfl⟩
    exact Or.inr (Or.inl ⟨name, hne, rfl⟩)

/-- A row that starts with another word is an instruction exactly when the word is a mnemonic. -/
theorem shaped_iff_of_labelOf?_eq_none {first : String} {words : List String}
    (hlabel : labelOf? first = none) :
    Shaped (first :: words) ↔ ∃ op, Opcode.ofMnemonic? first = some op := by
  constructor
  · rintro (hnil | ⟨name, _, hrow⟩ | ⟨op, words', hrow⟩)
    · cases hnil
    · rw [(List.cons.inj hrow).1, labelOf?_colon] at hlabel
      cases hlabel
    · rw [(List.cons.inj hrow).1]
      exact ⟨op, Opcode.ofMnemonic?_mnemonic op⟩
  · rintro ⟨op, hop⟩
    rw [Opcode.eq_mnemonic hop]
    exact Or.inr (Or.inr ⟨op, words, rfl⟩)

/-- A line is read exactly when its row can be. -/
theorem exists_readLine_iff (number : Nat) {line : List Char} {row : List String}
    (hrow : lineWords line = .ok row) :
    (∃ statement, readLine number line = .ok statement) ↔ Shaped row := by
  rcases map_eq_ok.mp hrow with ⟨tokens, htokens, rfl⟩
  unfold readLine
  rw [htokens]
  cases tokens with
  | nil => simp [Shaped]
  | cons first operands =>
    rw [List.map_cons]
    dsimp only
    cases hlabel : labelOf? first.text with
    | some name =>
      rw [labelOf?_eq_some.mp hlabel, shaped_label_iff, List.map_eq_nil_iff]
      by_cases hmalformed : name = "" ∨ operands ≠ []
      · simp only [hmalformed, if_true, reduceCtorEq, exists_false, false_iff]
        tauto
      · simp only [hmalformed, if_false, Except.ok.injEq, exists_eq', true_iff]
        tauto
    | none =>
      rw [shaped_iff_of_labelOf?_eq_none hlabel]
      cases Opcode.ofMnemonic? first.text with
      | none => simp
      | some op => simp

/-- Rows have a layout exactly when each can be read, and they define no label twice. -/
theorem exists_collect_iff {labels : List (String × Nat)} {offset : Nat}
    {numbered : List (List Char × Nat)} {rows : List (List String)}
    (hrows : List.Forall₂ (fun x row => lineWords x.1 = .ok row) numbered rows) :
    (∃ layout, collect labels offset numbered = .ok layout) ↔
      (∀ row ∈ rows, Shaped row) ∧ (labelNames rows).Nodup ∧
        ∀ name ∈ labelNames rows, labels.lookup name = none := by
  induction hrows generalizing labels offset with
  | nil => simp [collect, labelNames]
  | @cons head row rest rows hrow _ ih =>
    rcases head with ⟨line, number⟩
    by_cases hshaped : Shaped row
    · rcases (exists_readLine_iff number hrow).mpr hshaped with ⟨statement, hread⟩
      rcases isReadFrom_of_readLine hread with ⟨row', hrow', hfrom⟩
      rw [hrow] at hrow'
      cases hrow'
      simp only [collect_cons_eq_ok, hread, Except.ok.injEq, exists_eq_left', List.forall_mem_cons,
        hshaped, true_and]
      cases statement with
      | blank =>
        cases hfrom
        exact ih
      | label name column =>
        cases hfrom
        have hnames : labelNames ([":" ++ name] :: rows) = name :: labelNames rows := by
          simp [labelNames, labelOf?_colon]
        rw [hnames, exists_and_left, ih, List.nodup_cons, List.forall_mem_cons]
        simp only [lookup_cons_eq_none]
        constructor
        · rintro ⟨hnew, hrest, hnodup, hnone⟩
          exact ⟨hrest, ⟨fun hmem => (hnone name hmem).1 rfl, hnodup⟩, hnew,
            fun name' hmem => (hnone name' hmem).2⟩
        · rintro ⟨hrest, ⟨hnot, hnodup⟩, hnew, hnone⟩
          refine ⟨hnew, hrest, hnodup, ?_⟩
          intro name' hmem
          exact ⟨fun heq => hnot (heq ▸ hmem), hnone name' hmem⟩
      | instruction op column operands =>
        rcases hfrom with ⟨rfl, _⟩
        have hnames : labelNames ((op.mnemonic :: operands.map Token.text) :: rows) =
            labelNames rows := by
          simp [labelNames, (isWord_mnemonic op).2]
        rw [hnames]
        constructor
        · rintro ⟨_, tail, htail, _⟩
          exact ih.mp ⟨tail, htail⟩
        · intro hrest
          rcases ih.mpr hrest with ⟨tail, htail⟩
          exact ⟨_, tail, htail, rfl⟩
    · constructor
      · rintro ⟨layout, hcollect⟩
        rcases collect_cons_eq_ok.mp hcollect with ⟨statement, hread, _⟩
        exact absurd ((exists_readLine_iff number hrow).mp ⟨statement, hread⟩) hshaped
      · rintro ⟨hall, _⟩
        exact absurd (hall row List.mem_cons_self) hshaped

/-! ## Functions -/

/-- The names of the functions that the headers among lines declare, in order. -/
def declaredNames (ls : List SourceLine) : List String :=
  (ls.filter fun l => l.opcode.isHeader).map fun l => functionOf (l.text 0)

/-- Lines have functions exactly when headers and end marks alternate, and the headers declare
names, none of them twice. -/
theorem exists_collectRoutines_iff {functions : List (String × Extent)}
    {current : Option OpenRoutine} {ls : List SourceLine} :
    (∃ fs, collectRoutines functions current ls = .ok fs) ↔
      alternatesFrom current.isSome (ls.map SourceLine.opcode) = true ∧
        "" ∉ declaredNames ls ∧ (declaredNames ls).Nodup ∧
        ∀ name ∈ declaredNames ls, functions.lookup name = none ∧
          ∀ r, current = some r → name ≠ r.name := by
  induction ls generalizing functions current with
  | nil =>
    cases current with
    | none => simp [collectRoutines, alternatesFrom, declaredNames]
    | some r => simp [collectRoutines, alternatesFrom]
  | cons l ls ih =>
    rw [List.map_cons]
    rcases isBracket_cases l.opcode with hheader | hend | hother
    · have hnames : declaredNames (l :: ls) = functionOf (l.text 0) :: declaredNames ls := by
        simp [declaredNames, hheader]
      simp only [collectRoutines_header hheader, alternatesFrom_header hheader, hnames,
        Bool.and_eq_true, Bool.not_eq_true', List.mem_cons, not_or, List.nodup_cons]
      constructor
      · rintro ⟨fs, r, hr, hrest⟩
        rcases openRoutine_eq_ok.mp hr with ⟨token, rest, hoperands, hne, rfl, hnone, rfl⟩
        rcases ih.mp ⟨fs, hrest⟩ with ⟨halternates, hnamed, hnodup, hnew⟩
        have htext : l.text 0 = token.text := by simp [SourceLine.text, hoperands]
        rw [htext]
        refine ⟨⟨rfl, halternates⟩, ⟨hne.symm, hnamed⟩, ⟨?_, hnodup⟩, ?_⟩
        · intro hmem
          exact (hnew _ hmem).2 _ rfl rfl
        · rintro name (rfl | hmem)
          · exact ⟨hnone, by simp⟩
          · exact ⟨(hnew name hmem).1, by simp⟩
      · rintro ⟨⟨houtside, halternates⟩, ⟨hne, hnamed⟩, ⟨hfresh, hnodup⟩, hnew⟩
        obtain rfl : current = none := by simpa using houtside
        cases hoperands : l.operands with
        | nil =>
          have hempty : functionOf (l.text 0) = "" := by
            rw [SourceLine.text, hoperands]
            decide
          exact absurd hempty.symm hne
        | cons token rest =>
          have htext : l.text 0 = token.text := by simp [SourceLine.text, hoperands]
          rw [htext] at hne hfresh hnew
          have hr := openRoutine_eq_ok.mpr
            ⟨token, rest, hoperands, Ne.symm hne, rfl, (hnew _ (Or.inl rfl)).1, rfl⟩
          have hlater : ∃ fs, collectRoutines functions (some ⟨functionOf token.text, l.offset,
              l.number, token.column⟩) ls = .ok fs := by
            refine ih.mpr ⟨halternates, hnamed, hnodup, ?_⟩
            intro name hmem
            refine ⟨(hnew name (Or.inr hmem)).1, ?_⟩
            rintro _ ⟨⟩ rfl
            exact hfresh hmem
          rcases hlater with ⟨fs, hfs⟩
          exact ⟨fs, _, hr, hfs⟩
    · have hnames : declaredNames (l :: ls) = declaredNames ls := by
        simp [declaredNames, hend, Opcode.isHeader]
      simp only [collectRoutines_endFunc hend, hend, alternatesFrom_endFunc, hnames]
      cases current with
      | none => simp
      | some r =>
        simp only [Option.some.injEq, exists_eq_left', ih, lookup_cons_eq_none, Option.isSome_some,
          Option.isSome_none, Bool.true_and, reduceCtorEq, false_implies, implies_true, true_and,
          forall_eq', and_comm]
    · have hnames : declaredNames (l :: ls) = declaredNames ls := by
        have hheader : l.opcode.isHeader = false := by
          simp only [Opcode.isBracket, Bool.or_eq_false_iff] at hother
          exact hother.1
        simp [declaredNames, hheader]
      rw [collectRoutines_other hother, alternatesFrom_other hother, hnames]
      exact ih

/-! ## Rows and lines -/

section Rows

variable {rows : List (List String)} {ls : List SourceLine}

theorem rowOpcode?_row (l : SourceLine) : rowOpcode? l.row = some l.opcode :=
  Opcode.ofMnemonic?_mnemonic l.opcode

/-- A row that starts with a mnemonic is an instruction. -/
theorem isInstructionRow_of_rowOpcode? {row : List String} {op : Opcode}
    (hop : rowOpcode? row = some op) : isInstructionRow row = true := by
  cases row with
  | nil => cases hop
  | cons first words =>
    have hfirst : first = op.mnemonic := Opcode.eq_mnemonic hop
    rw [isInstructionRow, hfirst, (isWord_mnemonic op).2]
    rfl

/-- The opcodes of rows are those of the lines that the instruction rows are laid out as. -/
theorem opcodes_eq (hlines : instructionRows rows = ls.map SourceLine.row) :
    opcodes rows = ls.map SourceLine.opcode := by
  have hfilter : opcodes rows = (instructionRows rows).filterMap rowOpcode? := by
    rw [opcodes, instructionRows, List.filterMap_filter]
    refine List.filterMap_congr ?_
    intro row _
    cases hop : rowOpcode? row with
    | none => simp
    | some op => simp [isInstructionRow_of_rowOpcode? hop]
  rw [hfilter, hlines, List.filterMap_map]
  have hrow : rowOpcode? ∘ SourceLine.row = some ∘ SourceLine.opcode := funext rowOpcode?_row
  rw [hrow, List.filterMap_eq_map]

/-- The functions that rows declare are those that the lines declare. -/
theorem functionNames_eq (hlines : instructionRows rows = ls.map SourceLine.row) :
    functionNames rows = declaredNames ls := by
  have hfilter : (rows.filter fun row => (rowOpcode? row).any Opcode.isHeader) =
      (instructionRows rows).filter fun row => (rowOpcode? row).any Opcode.isHeader := by
    rw [instructionRows, List.filter_filter]
    refine List.filter_congr ?_
    intro row _
    cases hop : rowOpcode? row with
    | none => simp
    | some op => simp [isInstructionRow_of_rowOpcode? hop]
  rw [functionNames, hfilter, hlines, List.filter_map, List.map_map, declaredNames]
  have hrow : (fun row => (rowOpcode? row).any Opcode.isHeader) ∘ SourceLine.row =
      fun l => l.opcode.isHeader := by
    funext l
    simp [rowOpcode?_row]
  have htext : (fun row : List String => bareName (row[1]?.getD "")) ∘ SourceLine.row =
      fun l => functionOf (l.text 0) := by
    funext l
    simp [SourceLine.row, SourceLine.text, functionOf_eq]
  rw [hrow, htext]

/-- The instruction rows are those of the lines. -/
theorem mnemonic_mem_iff (hlines : instructionRows rows = ls.map SourceLine.row) {op : Opcode}
    {words : List String} :
    op.mnemonic :: words ∈ rows ↔
      ∃ l ∈ ls, l.opcode = op ∧ l.operands.map Token.text = words := by
  have hrow : rowOpcode? (op.mnemonic :: words) = some op := Opcode.ofMnemonic?_mnemonic op
  have hmem : op.mnemonic :: words ∈ rows ↔ op.mnemonic :: words ∈ instructionRows rows := by
    rw [instructionRows, List.mem_filter, isInstructionRow_of_rowOpcode? hrow]
    exact (and_iff_left rfl).symm
  rw [hmem, hlines, List.mem_map]
  refine exists_congr fun l => and_congr_right fun _ => ?_
  constructor
  · intro hl
    have hop := rowOpcode?_row l
    rw [hl, hrow] at hop
    exact ⟨(Option.some.inj hop).symm, (List.cons.inj hl).2⟩
  · rintro ⟨rfl, rfl⟩
    rfl

end Rows

/-! ## Operands -/

/-- The lines that follow one another from a place reach its end unless there are none. -/
theorem LaidOut.lt_iff {offset finish : Nat} {ls : List SourceLine}
    (hlaid : LaidOut offset ls finish) : offset < finish ↔ ls ≠ [] := by
  cases ls with
  | nil =>
    have heq : finish = offset := hlaid
    simp [heq]
  | cons l ls =>
    have hnext : l.next ≤ finish := (hlaid.bounds.2 l List.mem_cons_self).2
    have hpos := l.opcode.size_pos
    have hoffset : l.offset = offset := hlaid.1
    rw [SourceLine.next] at hnext
    simp only [ne_eq, reduceCtorEq, not_false_eq_true, iff_true]
    omega

section Operands

variable {numbered : List (List Char × Nat)} {rows : List (List String)} {offset : Nat} {l : Layout}
  {fs : List (String × Extent)} {word : String}

/-- A row that defines a label makes it known. -/
theorem exists_lookup_of_mem {labels : List (String × Nat)} {layout : Layout}
    (hcollect : collect labels offset numbered = .ok layout)
    (hrows : List.Forall₂ (fun x row => lineWords x.1 = .ok row) numbered rows) {name : String}
    (hmem : (labels.lookup name).isSome ∨ [":" ++ name] ∈ rows) :
    ∃ target, layout.labels.lookup name = some target := by
  induction hrows generalizing labels offset layout with
  | nil =>
    cases hcollect
    exact Option.isSome_iff_exists.mp (by simpa using hmem)
  | @cons head row rest rows hrow _ ih =>
    rcases collect_cons_eq_ok.mp hcollect with ⟨statement, hread, hrest⟩
    rcases isReadFrom_of_readLine hread with ⟨row', hrow', hfrom⟩
    rw [hrow] at hrow'
    cases hrow'
    cases statement with
    | blank =>
      cases hfrom
      exact ih hrest (by simpa using hmem)
    | label name' column =>
      cases hfrom
      refine ih hrest.2 ?_
      rw [List.lookup_cons]
      cases hbeq : name == name' with
      | true => exact Or.inl rfl
      | false =>
        simpa [ne_of_beq_false hbeq] using hmem
    | instruction op column operands =>
      rcases hrest with ⟨tail, htail, rfl⟩
      rcases hfrom with ⟨rfl, _⟩
      have hne : [":" ++ name] ≠ op.mnemonic :: operands.map Token.text := by
        intro heq
        exact colon_ne_mnemonic name op (List.cons.inj heq).1
      have hmem' : (labels.lookup name).isSome ∨ [":" ++ name] ∈ rows :=
        hmem.imp_right fun hmem => (List.mem_cons.mp hmem).resolve_left hne
      have hknown := ih htail hmem'
      exact hknown

/-- A word names a target exactly when it is a label that is defined before an instruction. -/
theorem exists_target_iff (hl : collect [] offset numbered = .ok l)
    (hrows : List.Forall₂ (fun x row => lineWords x.1 = .ok row) numbered rows)
    (hlines : instructionRows rows = l.lines.map SourceLine.row) :
    (∃ n, (l.scope fs).Names .target word n) ↔
      ∃ name before after, word = ":" ++ name ∧ rows = before ++ [":" ++ name] :: after ∧
        instructionRows after ≠ [] := by
  -- The lines after a label are the instruction rows after it.
  have hafter {name : String} {before after : List (List String)} {target : Nat}
      (hsplit : rows = before ++ [":" ++ name] :: after)
      (hlaid : LaidOut target (l.lines.drop (instructionRows before).length) l.length) :
      target < l.length ↔ instructionRows after ≠ [] := by
    have hsplit' : instructionRows rows = instructionRows before ++ instructionRows after := by
      rw [hsplit, instructionRows, List.filter_append]
      exact congrArg (instructionRows before ++ ·) (instructionRows_cons_label name after)
    have hdrop : (l.lines.drop (instructionRows before).length).map SourceLine.row =
        instructionRows after := by
      rw [List.map_drop, ← hlines, hsplit', List.drop_left]
    rw [hlaid.lt_iff, ← hdrop, ne_eq, ne_eq, List.map_eq_nil_iff]
  constructor
  · rintro ⟨n, hn⟩
    rcases Scope.resolveLabel_eq_ok.mp hn with ⟨name, hlabel, hlookup, hlt⟩
    rcases label_row_of_collect hl hrows hlookup with
      ⟨hnone, _⟩ | ⟨_, before, after, hsplit, _, _, hlaid⟩
    · cases hnone
    · exact ⟨name, before, after, labelOf?_eq_some.mp hlabel, hsplit, (hafter hsplit hlaid).mp hlt⟩
  · rintro ⟨name, before, after, rfl, hsplit, hne⟩
    have hmem : [":" ++ name] ∈ rows := by simp [hsplit]
    rcases exists_lookup_of_mem hl hrows (Or.inr hmem) with ⟨target, hlookup⟩
    rcases label_row_of_collect hl hrows hlookup with
      ⟨hnone, _⟩ | ⟨_, before', after', hsplit', hbefore, hafter', hlaid⟩
    · cases hnone
    · -- Only one row defines the label.
      rcases (List.append_cons_inj_of_notMem hbefore hafter').mp (hsplit'.symm.trans hsplit) with
        ⟨rfl, _, rfl⟩
      exact ⟨target, Scope.resolveLabel_eq_ok.mpr
        ⟨name, labelOf?_colon name, hlookup, (hafter hsplit hlaid).mpr hne⟩⟩

/-- A function is known exactly when a header declares it. -/
theorem exists_lookup_iff {name : String} (hfs : l.routines = .ok fs) :
    (∃ extent, fs.lookup name = some extent) ↔ name ∈ declaredNames l.lines := by
  rw [declaredNames, List.mem_map]
  constructor
  · rintro ⟨extent, hextent⟩
    rcases List.lookup_eq_some_iff.mp hextent with ⟨before, after, hfunctions, _⟩
    have hmem : (name, extent) ∈ fs := by simp [hfunctions]
    rcases entry_of_collectRoutines hfs hmem with
      hnone | ⟨_, hnone, _⟩ | ⟨line, hline, hheader, _, token, rest, hoperands, hname⟩
    · cases hnone
    · cases hnone
    · refine ⟨line, List.mem_filter.mpr ⟨hline, hheader⟩, ?_⟩
      simpa [SourceLine.text, hoperands] using hname
  · rintro ⟨line, hline, rfl⟩
    rw [List.mem_filter] at hline
    rcases List.append_of_mem hline.1 with ⟨earlier, later, hsplit⟩
    rcases (lookup_of_collectRoutines hfs (by simp)).2.2 earlier line later hsplit hline.2 with
      ⟨token, rest, finish, hoperands, _, hlookup⟩
    exact ⟨_, by simpa [SourceLine.text, hoperands] using hlookup⟩

/-- A word is resolved to a stack operand exactly when it is one, and not a number to pop into. -/
theorem exists_resolveStackOperand_iff {op : Opcode} :
    (∃ x, resolveStackOperand op (some word) = .ok x) ↔
      ∃ x, Operand.parse word = .ok x ∧ (op = .pop → ∀ v, x ≠ .imm v) := by
  simp only [resolveStackOperand, bind_eq_ok]
  constructor
  · rintro ⟨x, operand, hparse, hchecked⟩
    refine ⟨operand, hparse, ?_⟩
    rintro rfl v rfl
    simp at hchecked
  · rintro ⟨x, hparse, hpop⟩
    refine ⟨x, x, hparse, ?_⟩
    cases x with
    | imm v => exact if_neg fun hop => hpop hop v rfl
    | reg r => rfl
    | mem base displacement => rfl

/-- The words of a row of operands give doubles exactly when each does. -/
theorem exists_resolveAll_iff {s : Scope} {line : SourceLine} {kinds : List OperandKind}
    {tokens : List Token} (hlength : tokens.length = kinds.length) :
    (∃ values, s.resolveAll line kinds tokens = .ok values) ↔
      ∀ x ∈ kinds.zip (tokens.map Token.text), ∃ values, s.resolve line x.1 (some x.2) = .ok values := by
  induction kinds generalizing tokens with
  | nil => simp [Scope.resolveAll]
  | cons kind kinds ih =>
    cases tokens with
    | nil => cases hlength
    | cons token tokens =>
      rw [List.map_cons, List.zip_cons_cons, List.forall_mem_cons, ← ih (Nat.succ.inj hlength)]
      simp only [Scope.resolveAll, bind_eq_ok, mapError_eq_ok, pure_eq_ok, List.head?_cons,
        Option.map_some, List.tail_cons]
      constructor
      · rintro ⟨_, values, hvalues, rest, hrest, _⟩
        exact ⟨⟨values, hvalues⟩, rest, hrest⟩
      · rintro ⟨⟨values, hvalues⟩, rest, hrest⟩
        exact ⟨_, values, hvalues, rest, hrest, rfl⟩

/-- A line has an instruction exactly when it has a word for each operand, each of which gives
doubles; a pop may go without. -/
theorem exists_emit_iff {s : Scope} {line : SourceLine} :
    (∃ i, s.emit line = .ok i) ↔
      (line.operands.length = line.opcode.tokenCount ∨
        line.opcode = .pop ∧ line.operands = []) ∧
      ∀ x ∈ (line.opcode.operands.filter OperandKind.hasToken).zip
          (line.operands.map Token.text),
        ∃ values, s.resolve line x.1 (some x.2) = .ok values := by
  simp only [Scope.emit_eq_ok_iff, SourceLine.hasArity_eq_true]
  constructor
  · rintro ⟨i, harity, _, hvalues⟩
    refine ⟨harity, ?_⟩
    rcases harity with hlength | ⟨_, hnil⟩
    · exact (exists_resolveAll_iff hlength).mp ⟨_, hvalues⟩
    · simp [hnil]
  · rintro ⟨harity, hall⟩
    have hvalues : ∃ values, s.resolveAll line
        (line.opcode.operands.filter OperandKind.hasToken) line.operands = .ok values := by
      rcases harity with hlength | ⟨hpop, hnil⟩
      · exact (exists_resolveAll_iff hlength).mpr hall
      · rw [hpop, hnil]
        exact ⟨_, rfl⟩
    rcases hvalues with ⟨values, hvalues⟩
    exact ⟨⟨line.opcode, values⟩, harity, rfl, hvalues⟩

/-- The first word of a header is for the end of its body, and no other is. -/
theorem filter_hasToken_of_isHeader {op : Opcode} (hop : op.isHeader = true) :
    ∃ kinds, op.operands.filter OperandKind.hasToken = .bodyEnd :: kinds ∧
      OperandKind.bodyEnd ∉ kinds := by
  cases op with
  | func => exact ⟨[], rfl, by simp⟩
  | framed => exact ⟨[.frameSize, .frameSize], rfl, by simp⟩
  | _ => cases hop

/-- Only a header has a word for the end of a body, and it is the first one. -/
theorem head?_of_bodyEnd {op : Opcode} {words : List String}
    (hx : (OperandKind.bodyEnd, word) ∈ (op.operands.filter OperandKind.hasToken).zip words) :
    op.isHeader = true ∧ words.head? = some word := by
  have hheader : op.isHeader = true := by
    have hmem := (List.mem_filter.mp (List.of_mem_zip hx).1).1
    cases op with
    | func | framed => rfl
    | _ => simp [Opcode.operands] at hmem
  refine ⟨hheader, ?_⟩
  rcases filter_hasToken_of_isHeader hheader with ⟨kinds, hkinds, hnot⟩
  rw [hkinds] at hx
  cases words with
  | nil => cases hx
  | cons first words =>
    rw [List.zip_cons_cons, List.mem_cons] at hx
    rcases hx with heq | hlater
    · rw [(Prod.mk.inj heq).2, List.head?_cons]
    · exact absurd (List.of_mem_zip hlater).1 hnot

/-- A word is accepted exactly when it gives doubles. -/
theorem exists_resolve_iff (hl : collect [] offset numbered = .ok l)
    (hrows : List.Forall₂ (fun x row => lineWords x.1 = .ok row) numbered rows)
    (hlines : instructionRows rows = l.lines.map SourceLine.row) (hfs : l.routines = .ok fs)
    {line : SourceLine} (hline : line ∈ l.lines) {kind : OperandKind}
    (hx : (kind, word) ∈ (line.opcode.operands.filter OperandKind.hasToken).zip
      (line.operands.map Token.text)) :
    (∃ values, (l.scope fs).resolve line kind (some word) = .ok values) ↔
      Accepts rows line.opcode kind word := by
  have hplain (hkind : kind.isPlain = true) :
      (∃ values, (l.scope fs).resolve line kind (some word) = .ok values) ↔
        ∃ n, (l.scope fs).Names kind word n := by
    simp only [Scope.resolve_eq_ok hkind, Option.getD_some]
    constructor
    · rintro ⟨_, n, hn, _⟩
      exact ⟨n, hn⟩
    · rintro ⟨n, hn⟩
      exact ⟨_, n, hn, rfl⟩
  cases kind with
  | mode =>
    rw [Accepts, ← exists_resolveStackOperand_iff]
    simp only [Scope.resolve, bind_eq_ok, mapError_eq_ok, pure_eq_ok]
    constructor
    · rintro ⟨_, x, hx, _⟩
      exact ⟨x, hx⟩
    · rintro ⟨x, hx⟩
      exact ⟨_, x, hx, rfl⟩
  | location => exact iff_of_true ⟨_, rfl⟩ trivial
  | target => rw [hplain rfl, Accepts, exists_target_iff hl hrows hlines]
  | function =>
    rw [hplain rfl, Accepts, functionNames_eq hlines, ← functionOf_eq, ← exists_lookup_iff hfs]
    simp [Scope.Names, Scope.resolveFunction_eq_ok, Layout.scope]
  | bodyEnd =>
    rw [hplain rfl]
    refine iff_of_true ?_ trivial
    rcases head?_of_bodyEnd hx with ⟨hheader, hfirst⟩
    have htext : line.text 0 = word := by
      rw [SourceLine.text, ← List.head?_eq_getElem?, ← List.head?_map, hfirst, Option.getD_some]
    have hmem : functionOf word ∈ declaredNames l.lines := by
      rw [declaredNames, List.mem_map]
      exact ⟨line, List.mem_filter.mpr ⟨hline, hheader⟩, by rw [htext]⟩
    rcases (exists_lookup_iff hfs).mpr hmem with ⟨extent, hextent⟩
    exact ⟨_, extent, Scope.resolveFunction_eq_ok.mpr hextent, rfl⟩
  | count | slot => exact hplain rfl
  | length | frameSize => exact hplain rfl

end Operands

/-! ## Source texts -/

/-- The lines of a layout have instructions exactly when the instruction rows have the words
they need, and each is accepted. -/
theorem exists_instructions_iff {numbered : List (List Char × Nat)} {rows : List (List String)}
    {offset : Nat} {l : Layout} {fs : List (String × Extent)}
    (hl : collect [] offset numbered = .ok l)
    (hrows : List.Forall₂ (fun x row => lineWords x.1 = .ok row) numbered rows)
    (hlines : instructionRows rows = l.lines.map SourceLine.row) (hfs : l.routines = .ok fs) :
    (∃ is, List.Forall₂ (fun line i => (l.scope fs).emit line = .ok i) l.lines is) ↔
      (∀ (op : Opcode) words, op.mnemonic :: words ∈ rows →
        words.length = op.tokenCount ∨ op = .pop ∧ words = []) ∧
      ∀ (op : Opcode) words, op.mnemonic :: words ∈ rows →
        ∀ x ∈ (op.operands.filter OperandKind.hasToken).zip words, Accepts rows op x.1 x.2 := by
  have hrow {P : Opcode → List String → Prop} :
      (∀ op words, Opcode.mnemonic op :: words ∈ rows → P op words) ↔
        ∀ line ∈ l.lines, P line.opcode (line.operands.map Token.text) := by
    simp only [mnemonic_mem_iff hlines]
    constructor
    · intro hall line hline
      exact hall _ _ ⟨line, hline, rfl, rfl⟩
    · rintro hall _ _ ⟨line, hline, rfl, rfl⟩
      exact hall line hline
  rw [exists_forall₂_iff, hrow, hrow, ← forall₂_and]
  refine forall₂_congr fun line hline => ?_
  rw [exists_emit_iff, List.length_map, List.map_eq_nil_iff]
  refine and_congr_right fun _ => forall₂_congr fun x hx => ?_
  exact exists_resolve_iff hl hrows hlines hfs hline hx

/-- A source text assembles exactly when all its lines have words, and the rows of words are
accepted. -/
theorem assembles_iff (source : String) :
    (∃ p, assemble source = .ok p) ↔ ∃ rows, wordRows source = .ok rows ∧ Accepted rows := by
  simp only [assemble_eq_ok, wordRows_eq_ok]
  constructor
  · rintro ⟨_, l, fs, is, hl, hfs, his, _⟩
    rcases rows_of_collect hl with ⟨rows, hrows, hlines⟩
    rcases (exists_collect_iff hrows).mp ⟨l, hl⟩ with ⟨hshaped, hlabels, _⟩
    rcases exists_collectRoutines_iff.mp ⟨fs, hfs⟩ with ⟨halternates, hnamed, hfunctions, _⟩
    rcases (exists_instructions_iff hl hrows hlines hfs).mp ⟨is, his⟩ with ⟨harity, hoperands⟩
    rw [← functionNames_eq hlines] at hnamed hfunctions
    rw [← opcodes_eq hlines] at halternates
    exact ⟨rows, hrows, hshaped, hlabels, alternates_iff.mpr halternates, hnamed, hfunctions, harity,
      hoperands⟩
  · rintro ⟨rows, hrows, h⟩
    have hl : ∃ l, layout source = .ok l :=
      (exists_collect_iff hrows).mpr ⟨h.shaped, h.labels, fun _ _ => rfl⟩
    rcases hl with ⟨l, hl⟩
    rcases rows_of_collect hl with ⟨rows', hrows', hlines⟩
    obtain rfl : rows' = rows :=
      Except.ok.inj ((wordRows_eq_ok.mpr hrows').symm.trans (wordRows_eq_ok.mpr hrows))
    have hfs : ∃ fs, l.routines = .ok fs := by
      refine exists_collectRoutines_iff.mpr ⟨?_, ?_, ?_, by simp⟩
      · rw [← opcodes_eq hlines]
        exact alternates_iff.mp h.alternates
      · rw [← functionNames_eq hlines]
        exact h.named
      · rw [← functionNames_eq hlines]
        exact h.functions
    rcases hfs with ⟨fs, hfs⟩
    rcases (exists_instructions_iff hl hrows hlines hfs).mpr ⟨h.arity, h.operands⟩ with ⟨is, his⟩
    exact ⟨_, l, fs, is, hl, hfs, his, rfl⟩

/-- The rows of a call and of a function `f` without a body. -/
def callRows (word : String) : List (List String) := [["CALL", word], ["FUNC", "f"], ["ENDFUNC"]]

/-- Which instructions these rows are. -/
theorem mem_callRows {word : String} {op : Opcode} {words : List String}
    (hmem : op.mnemonic :: words ∈ callRows word) :
    op = .call ∧ words = [word] ∨ op = .func ∧ words = ["f"] ∨ op = .endFunc ∧ words = [] := by
  have hop {op' : Opcode} (heq : op.mnemonic = op'.mnemonic) : op = op' :=
    Option.some.inj ((Opcode.ofMnemonic?_mnemonic op).symm.trans
      (heq ▸ Opcode.ofMnemonic?_mnemonic op'))
  simp only [callRows, List.mem_cons, List.cons.injEq, List.not_mem_nil, or_false] at hmem
  rcases hmem with ⟨hname, hwords⟩ | ⟨hname, hwords⟩ | ⟨hname, hwords⟩
  · exact .inl ⟨hop hname, hwords⟩
  · exact .inr (.inl ⟨hop hname, hwords⟩)
  · exact .inr (.inr ⟨hop hname, hwords⟩)

/-- A call names its function with one leading colon or without, but not with two. -/
theorem assembles_callExample :
    (∃ p, assemble "CALL :f\nFUNC f\nENDFUNC" = .ok p) ∧
      ¬ ∃ p, assemble "CALL ::f\nFUNC f\nENDFUNC" = .ok p := by
  constructor
  · refine (assembles_iff _).mpr ⟨callRows ":f", by decide +kernel, ?_⟩
    refine ⟨?_, by decide +kernel, alternates_iff.mpr (by decide +kernel), by decide +kernel,
      by decide +kernel, ?_, ?_⟩
    · simp only [callRows, List.forall_mem_cons]
      exact ⟨.inr (.inr ⟨.call, [":f"], rfl⟩), .inr (.inr ⟨.func, ["f"], rfl⟩),
        .inr (.inr ⟨.endFunc, [], rfl⟩), by simp⟩
    · intro op words hmem
      rcases mem_callRows hmem with ⟨rfl, rfl⟩ | ⟨rfl, rfl⟩ | ⟨rfl, rfl⟩ <;> decide
    · intro op words hmem x hx
      rcases mem_callRows hmem with ⟨rfl, rfl⟩ | ⟨rfl, rfl⟩ | ⟨rfl, rfl⟩
      · obtain rfl : x = (.function, ":f") := List.mem_singleton.mp hx
        change bareName ":f" ∈ functionNames (callRows ":f")
        decide +kernel
      · obtain rfl : x = (.bodyEnd, "f") := List.mem_singleton.mp hx
        trivial
      · cases hx
  · intro hassembles
    obtain ⟨rows, hrows, haccepted⟩ := (assembles_iff _).mp hassembles
    have hwords : wordRows "CALL ::f\nFUNC f\nENDFUNC" = .ok (callRows "::f") := by decide +kernel
    obtain rfl : rows = callRows "::f" := Except.ok.inj (hrows.symm.trans hwords)
    have hname : bareName "::f" ∈ functionNames (callRows "::f") :=
      haccepted.operands .call ["::f"] (by decide +kernel) (.function, "::f") (by decide +kernel)
    exact absurd hname (by decide +kernel)

end Assembly

end StackMachine
