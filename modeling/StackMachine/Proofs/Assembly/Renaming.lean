import Mathlib.Logic.Embedding.Basic
import StackMachine.Proofs.Assembly.Language

/-!
# Names in source texts

A renaming gives the labels and the functions of a source text other names.  The two kinds of
names are kept apart by their places: the operand of a jump and a row of its own are for
labels, the first operand of a header and the operand of a call for functions.  Two source
texts whose rows of words differ by a renaming go through an assembly together: their lines
have the same instructions at the same offsets, and their tables of names differ by the
renaming, so that every name is found in both or in none.

Main definitions:

- `Name`, the texts that are names;
- `Renaming`, other names for labels and functions;
- `Renaming.row`, a row of words with other names;
- `Renaming.Alike`, lines that differ by a renaming.

Main results:

- Theorems `Renaming.collect_both`, `Renaming.collectRoutines_both`, `Renaming.emit_both`: each
  pass of an assembly succeeds on both source texts or on none, with results that differ by
  the renaming.
- Theorem `Renaming.assemble_both`: both assemble to the same program, or neither does.
-/

namespace StackMachine

open Fallible

namespace Assembly

/-! ## Names -/

/-- Whether a character stands in names: it stands in words and is no bracket. -/
def isNameChar (c : Char) : Bool := isPlainChar c && c != ']'

/-- Whether a text is a name: it is not empty, its characters stand in names, and it does not
start with a colon. -/
def isName (text : String) : Bool :=
  !text.toList.isEmpty && text.toList.all isNameChar && text.toList.head? != some ':'

/-- The texts that are names. -/
abbrev Name := { text : String // isName text = true }

/-- The texts for other texts when names have others; what is no name stays. -/
def replaceName (f : Name ↪ Name) (text : String) : String :=
  if h : isName text = true then (f ⟨text, h⟩).1 else text

section Names

variable {f : Name ↪ Name} {text : String}

theorem replaceName_of_isName (h : isName text = true) : replaceName f text = (f ⟨text, h⟩).1 :=
  dif_pos h

theorem replaceName_of_not_isName (h : ¬ isName text = true) : replaceName f text = text :=
  dif_neg h

/-- A renaming makes names out of names, and out of nothing else. -/
theorem isName_replaceName_iff : isName (replaceName f text) = true ↔ isName text = true := by
  by_cases h : isName text = true
  · rw [replaceName_of_isName h]
    exact iff_of_true (f ⟨text, h⟩).2 h
  · rw [replaceName_of_not_isName h]

/-- Different texts stay different: names have different names, and the others are none. -/
theorem replaceName_injective (f : Name ↪ Name) : Function.Injective (replaceName f) := by
  intro a b heq
  have hiff : isName a = true ↔ isName b = true := by
    rw [← isName_replaceName_iff (f := f), heq, isName_replaceName_iff]
  by_cases ha : isName a = true
  · have hb := hiff.mp ha
    rw [replaceName_of_isName ha, replaceName_of_isName hb] at heq
    exact congrArg Subtype.val (f.injective (Subtype.ext heq))
  · have hb := mt hiff.mpr ha
    rwa [replaceName_of_not_isName ha, replaceName_of_not_isName hb] at heq

theorem replaceName_empty : replaceName f "" = "" := replaceName_of_not_isName (by decide)

/-- Only the empty text becomes empty. -/
theorem replaceName_eq_empty : replaceName f text = "" ↔ text = "" := by
  constructor
  · intro h
    exact replaceName_injective f (h.trans replaceName_empty.symm)
  · rintro rfl
    exact replaceName_empty

/-- A name does not start with the colon of a label. -/
theorem labelOf?_of_isName (h : isName text = true) : labelOf? text = none := by
  cases hlabel : labelOf? text with
  | none => rfl
  | some name =>
    rw [labelOf?_eq_some.mp hlabel] at h
    simp [isName, String.toList_append] at h

end Names

/-- A table of names has what it had under the other names. -/
theorem lookup_map {α : Type} {f : String → String} (hf : Function.Injective f)
    (table : List (String × α)) (name : String) :
    (table.map (Prod.map f id)).lookup (f name) = table.lookup name := by
  induction table with
  | nil => rfl
  | cons entry table ih =>
    have hbeq : (f name == f entry.1) = (name == entry.1) := by
      by_cases h : name = entry.1
      · simp [h]
      · rw [beq_false_of_ne h, beq_false_of_ne (hf.ne h)]
    rw [List.map_cons, List.lookup_cons, List.lookup_cons, ih]
    simp [hbeq]

/-! ## Rows -/

/-- Other names for labels and for functions. -/
structure Renaming where
  label : Name ↪ Name
  function : Name ↪ Name

namespace Renaming

/-- A word for a label, with another name after the colon. -/
def labelWord (r : Renaming) (word : String) : String :=
  match labelOf? word with
  | some name => ":" ++ replaceName r.label name
  | none => word

/-- A word for a function, with another name, after a colon if it had one. -/
def functionWord (r : Renaming) (word : String) : String :=
  match labelOf? word with
  | some name => ":" ++ replaceName r.function name
  | none => replaceName r.function word

/-- The word for an operand. -/
def operand (r : Renaming) : OperandKind → String → String
  | .target => r.labelWord
  | .function | .bodyEnd => r.functionWord
  | _ => id

/-- The words for operands of the given kinds; words beyond stay. -/
def operands (r : Renaming) : List OperandKind → List String → List String
  | kind :: kinds, word :: words => r.operand kind word :: r.operands kinds words
  | _, words => words

/-- A row of words with other names. -/
def row (r : Renaming) : List String → List String
  | [] => []
  | first :: words =>
    match Opcode.ofMnemonic? first with
    | some op => first :: r.operands (op.operands.filter OperandKind.hasToken) words
    | none => r.labelWord first :: words

variable {r : Renaming}

/-- The label in a word that is renamed is the renamed label. -/
theorem labelOf?_labelWord (word : String) :
    labelOf? (r.labelWord word) = (labelOf? word).map (replaceName r.label) := by
  unfold labelWord
  cases hlabel : labelOf? word with
  | none => exact hlabel
  | some name => exact labelOf?_colon _

/-- The function that a renamed word names is the renamed function, with the colon or without. -/
theorem functionOf_functionWord (word : String) :
    functionOf (r.functionWord word) = replaceName r.function (functionOf word) := by
  unfold functionWord
  cases hlabel : labelOf? word with
  | some name => simp [functionOf, labelOf?_colon, hlabel]
  | none =>
    have hnone : labelOf? (replaceName r.function word) = none := by
      by_cases h : isName word = true
      · exact labelOf?_of_isName (isName_replaceName_iff.mpr h)
      · rwa [replaceName_of_not_isName h]
    simp [functionOf, hlabel, hnone]

theorem operand_empty (kind : OperandKind) : r.operand kind "" = "" := by
  have hnone : labelOf? "" = none := by decide
  cases kind <;> simp [operand, labelWord, functionWord, hnone, replaceName_empty]

theorem operands_nil (kinds : List OperandKind) : r.operands kinds [] = [] := by
  cases kinds <;> rfl

theorem length_operands (kinds : List OperandKind) (words : List String) :
    (r.operands kinds words).length = words.length := by
  induction kinds generalizing words with
  | nil => rfl
  | cons kind kinds ih =>
    cases words with
    | nil => rfl
    | cons word words => simp [operands, ih]

/-- In a row with a mnemonic, the operands are renamed by their kinds. -/
theorem row_mnemonic (op : Opcode) (words : List String) :
    r.row (op.mnemonic :: words) =
      op.mnemonic :: r.operands (op.operands.filter OperandKind.hasToken) words := by
  simp [row, Opcode.ofMnemonic?_mnemonic]

/-- In a row with a label, the label is renamed. -/
theorem row_label (name : String) (words : List String) :
    r.row ((":" ++ name) :: words) = (":" ++ replaceName r.label name) :: words := by
  have hnone : Opcode.ofMnemonic? (":" ++ name) = none := by
    cases hop : Opcode.ofMnemonic? (":" ++ name) with
    | none => rfl
    | some op => exact absurd (Opcode.eq_mnemonic hop) (colon_ne_mnemonic name op)
  simp [row, hnone, labelWord, labelOf?_colon]

/-- A row can be read with other names exactly when it can be without. -/
theorem shaped_row_iff (words : List String) : Shaped (r.row words) ↔ Shaped words := by
  cases words with
  | nil => rfl
  | cons first words =>
    cases hlabel : labelOf? first with
    | some name =>
      rw [labelOf?_eq_some.mp hlabel, row_label, shaped_label_iff, shaped_label_iff, ne_eq, ne_eq,
        replaceName_eq_empty]
    | none =>
      cases hop : Opcode.ofMnemonic? first with
      | some op =>
        rw [Opcode.eq_mnemonic hop, row_mnemonic]
        exact iff_of_true (Or.inr (Or.inr ⟨op, _, rfl⟩)) (Or.inr (Or.inr ⟨op, _, rfl⟩))
      | none => simp [row, hop, labelWord, hlabel]

/-- The renaming that gives labels and functions the names they have. -/
def refl : Renaming := ⟨.refl Name, .refl Name⟩

/-- Every text stays when the names stay. -/
theorem replaceName_refl (text : String) : replaceName (.refl Name) text = text := by
  by_cases h : isName text = true
  · rw [replaceName_of_isName h]
    rfl
  · exact replaceName_of_not_isName h

theorem labelWord_refl (word : String) : refl.labelWord word = word := by
  unfold labelWord
  cases hlabel : labelOf? word with
  | none => rfl
  | some name =>
    rw [labelOf?_eq_some.mp hlabel]
    exact congrArg (":" ++ ·) (replaceName_refl name)

theorem functionWord_refl (word : String) : refl.functionWord word = word := by
  unfold functionWord
  cases hlabel : labelOf? word with
  | none => exact replaceName_refl word
  | some name =>
    rw [labelOf?_eq_some.mp hlabel]
    exact congrArg (":" ++ ·) (replaceName_refl name)

theorem operands_refl (kinds : List OperandKind) (words : List String) :
    refl.operands kinds words = words := by
  induction kinds generalizing words with
  | nil => rfl
  | cons kind kinds ih =>
    cases words with
    | nil => rfl
    | cons word words =>
      rw [operands, ih]
      cases kind <;> simp [operand, labelWord_refl, functionWord_refl]

/-- Every row stays when the names stay. -/
theorem row_refl (words : List String) : refl.row words = words := by
  cases words with
  | nil => rfl
  | cons first words =>
    rw [row]
    cases Opcode.ofMnemonic? first with
    | some op => exact congrArg (first :: ·) (operands_refl _ words)
    | none => exact congrArg (· :: words) (labelWord_refl first)

/-! ## Labels -/

/-- Lines that differ by a renaming. -/
structure Alike (r : Renaming) (l l' : SourceLine) : Prop where
  offset_eq : l'.offset = l.offset
  opcode_eq : l'.opcode = l.opcode
  words_eq : l'.operands.map Token.text =
    r.operands (l.opcode.operands.filter OperandKind.hasToken) (l.operands.map Token.text)

/-- Statements that differ by a renaming. -/
def SaysAlike (r : Renaming) : Statement → Statement → Prop
  | .blank, .blank => True
  | .label name _, .label name' _ => name' = replaceName r.label name
  | .instruction op _ operands, .instruction op' _ operands' =>
    op' = op ∧ operands'.map Token.text =
      r.operands (op.operands.filter OperandKind.hasToken) (operands.map Token.text)
  | _, _ => False

/-- Layouts that differ by a renaming. -/
structure LaidAlike (r : Renaming) (l l' : Layout) : Prop where
  labels_eq : l'.labels = l.labels.map (Prod.map (replaceName r.label) id)
  lines : List.Forall₂ r.Alike l.lines l'.lines
  length_eq : l'.length = l.length

/-- What is said by a row and by the row with other names. -/
theorem saysAlike_of_isReadFrom {statement statement' : Statement} {words : List String}
    (hfrom : statement.IsReadFrom words) (hfrom' : statement'.IsReadFrom (r.row words)) :
    r.SaysAlike statement statement' := by
  cases statement with
  | blank =>
    cases hfrom
    cases statement' with
    | blank => trivial
    | label name column => cases hfrom'
    | instruction op column operands => cases hfrom'.1
  | label name column =>
    cases hfrom
    rw [row_label] at hfrom'
    cases statement' with
    | blank => cases hfrom'
    | label name' column' =>
      have hword := (List.cons.inj hfrom').1
      exact ((String.append_right_inj _).mp hword).symm
    | instruction op column' operands =>
      have hinstruction := hfrom'.2
      simp [isInstructionRow, labelOf?_colon] at hinstruction
  | instruction op column operands =>
    rcases hfrom with ⟨rfl, _⟩
    rw [row_mnemonic] at hfrom'
    cases statement' with
    | blank => cases hfrom'
    | label name' column' =>
      exact absurd (List.cons.inj hfrom').1.symm (colon_ne_mnemonic name' op)
    | instruction op' column' operands' =>
      have hop := Opcode.ofMnemonic?_mnemonic op'
      rw [← (List.cons.inj hfrom'.1).1, Opcode.ofMnemonic?_mnemonic] at hop
      cases hop
      exact ⟨rfl, (List.cons.inj hfrom'.1).2.symm⟩

/-- Lines of words that differ by a renaming, or lines without words. -/
abbrev WrittenAlike (r : Renaming) (line line' : List Char) : Prop :=
  Both (fun words words' => words' = r.row words) (lineWords line) (lineWords line')

/-- A line without words says nothing that is accepted. -/
theorem readLine_ne_ok {number : Nat} {line : List Char} {e : Nat}
    (hline : lineWords line = .error e) (statement : Statement) :
    readLine number line ≠ .ok statement := by
  intro hread
  rcases isReadFrom_of_readLine hread with ⟨words, hwords, _⟩
  rw [hline] at hwords
  cases hwords

/-- Lines that are written alike say alike, or neither says anything that is accepted. -/
theorem readLine_both {number number' : Nat} {line line' : List Char}
    (h : r.WrittenAlike line line') :
    Both r.SaysAlike (readLine number line) (readLine number' line') := by
  unfold WrittenAlike at h
  generalize hwords : lineWords line = x at h
  generalize hwords' : lineWords line' = x' at h
  cases h with
  | error e e' => exact both_error_of_not_ok (readLine_ne_ok hwords) (readLine_ne_ok hwords')
  | @ok words _ h =>
    subst h
    by_cases hshaped : Shaped words
    · rcases (exists_readLine_iff number hwords).mpr hshaped with ⟨statement, hread⟩
      rcases (exists_readLine_iff number' hwords').mpr ((shaped_row_iff words).mpr hshaped) with
        ⟨statement', hread'⟩
      rcases isReadFrom_of_readLine hread with ⟨_, hfound, hfrom⟩
      rcases isReadFrom_of_readLine hread' with ⟨_, hfound', hfrom'⟩
      rw [hwords] at hfound
      rw [hwords'] at hfound'
      cases hfound
      cases hfound'
      rw [hread, hread']
      exact .ok (saysAlike_of_isReadFrom hfrom hfrom')
    · refine both_error_of_not_ok ?_ ?_
      · intro statement hread
        exact hshaped ((exists_readLine_iff number hwords).mp ⟨statement, hread⟩)
      · intro statement hread
        have hshaped' := (exists_readLine_iff number' hwords').mp ⟨statement, hread⟩
        exact hshaped ((shaped_row_iff words).mp hshaped')

/-- Lines that are written alike are laid out alike, or neither have a layout. -/
theorem collect_both {numbered numbered' : List (List Char × Nat)}
    (h : List.Forall₂ (fun x y => r.WrittenAlike x.1 y.1) numbered numbered')
    (labels : List (String × Nat)) (offset : Nat) :
    Both r.LaidAlike (collect labels offset numbered)
      (collect (labels.map (Prod.map (replaceName r.label) id)) offset numbered') := by
  induction h generalizing labels offset with
  | nil => exact .ok ⟨rfl, .nil, rfl⟩
  | @cons x y numbered numbered' hxy _ ih =>
    rcases x with ⟨line, number⟩
    rcases y with ⟨line', number'⟩
    unfold collect
    refine (readLine_both hxy).bind ?_
    intro statement statement' hsays
    cases statement with
    | blank =>
      cases statement' with
      | blank => exact ih labels offset
      | label name' column' => cases hsays
      | instruction op' column' operands' => cases hsays
    | label name column =>
      cases statement' with
      | blank => cases hsays
      | instruction op' column' operands' => cases hsays
      | label name' column' =>
        cases hsays
        dsimp only
        rw [lookup_map (replaceName_injective r.label)]
        cases labels.lookup name with
        | some target => exact .error _ _
        | none => exact ih ((name, offset) :: labels) offset
    | instruction op column operands =>
      cases statement' with
      | blank => cases hsays
      | label name' column' => cases hsays
      | instruction op' column' operands' =>
        rcases hsays with ⟨rfl, hwords⟩
        refine (ih labels (offset + op'.size)).bind ?_
        intro l l' hl
        exact .ok ⟨hl.labels_eq, .cons ⟨rfl, rfl, hwords⟩ hl.lines, hl.length_eq⟩

/-! ## Functions -/

/-- Functions that are open differ by a renaming, or none is. -/
def OpenAlike (r : Renaming) (current current' : Option OpenRoutine) : Prop :=
  (current'.map fun o => (o.name, o.entry)) =
    current.map fun o => (replaceName r.function o.name, o.entry)

/-- Headers that are alike open functions that are alike, or neither opens one. -/
theorem openRoutine_both {functions : List (String × Extent)}
    {current current' : Option OpenRoutine} {l l' : SourceLine} (hl : r.Alike l l')
    (hheader : l.opcode.isHeader = true) (hcurrent : r.OpenAlike current current') :
    Both (fun o o' => r.OpenAlike (some o) (some o')) (openRoutine functions current l)
      (openRoutine (functions.map (Prod.map (replaceName r.function) id)) current' l') := by
  rcases filter_hasToken_of_isHeader hheader with ⟨kinds, hkinds, _⟩
  have hwords := hl.words_eq
  rw [hkinds] at hwords
  unfold openRoutine
  cases hoperands : l.operands with
  | nil =>
    rw [hoperands, List.map_nil, operands_nil, List.map_eq_nil_iff] at hwords
    rw [hwords]
    exact .error _ _
  | cons token rest =>
    rw [hoperands, List.map_cons, operands, List.map_eq_cons_iff] at hwords
    rcases hwords with ⟨token', rest', hoperands', htext, _⟩
    have hname : functionOf token'.text = replaceName r.function (functionOf token.text) := by
      rw [htext]
      exact functionOf_functionWord token.text
    have hsome : current'.isSome = current.isSome := by
      have hmap := congrArg Option.isSome hcurrent
      simpa using hmap
    rw [hoperands']
    simp only [hname, replaceName_eq_empty, hsome, lookup_map (replaceName_injective r.function)]
    split_ifs
    · exact .error _ _
    · exact .error _ _
    · exact .error _ _
    · exact .ok (by simp [OpenAlike, hl.offset_eq])

/-- Lines that are alike have functions that differ by the renaming, or neither do. -/
theorem collectRoutines_both {ls ls' : List SourceLine} (h : List.Forall₂ r.Alike ls ls')
    (functions : List (String × Extent)) {current current' : Option OpenRoutine}
    (hcurrent : r.OpenAlike current current') :
    Both (fun fs fs' => fs' = fs.map (Prod.map (replaceName r.function) id))
      (collectRoutines functions current ls)
      (collectRoutines (functions.map (Prod.map (replaceName r.function) id)) current' ls') := by
  induction h generalizing functions current current' with
  | nil =>
    cases current with
    | none =>
      cases current' with
      | none => exact .ok rfl
      | some o' => cases hcurrent
    | some o =>
      cases current' with
      | none => cases hcurrent
      | some o' => exact .error _ _
  | @cons l l' ls ls' hl _ ih =>
    unfold collectRoutines
    rw [hl.opcode_eq]
    by_cases hheader : l.opcode.isHeader = true
    · rw [if_pos hheader, if_pos hheader]
      refine (openRoutine_both hl hheader hcurrent).bind ?_
      intro o o' ho
      exact ih functions ho
    · rw [if_neg hheader, if_neg hheader]
      by_cases hend : l.opcode = .endFunc
      · rw [if_pos hend, if_pos hend]
        cases current with
        | none =>
          cases current' with
          | none => exact .error _ _
          | some o' => cases hcurrent
        | some o =>
          cases current' with
          | none => cases hcurrent
          | some o' =>
            simp only [OpenAlike, Option.map_some, Option.some.injEq, Prod.mk.injEq] at hcurrent
            have hnext : l'.next = l.next := by
              rw [SourceLine.next, SourceLine.next, hl.offset_eq, hl.opcode_eq]
            dsimp only
            rw [hcurrent.1, hcurrent.2, hnext]
            exact ih ((o.name, ⟨o.entry, l.next⟩) :: functions) rfl
      · rw [if_neg hend, if_neg hend]
        exact ih functions hcurrent

/-! ## Instructions -/

/-- Scopes that differ by a renaming. -/
structure MeansAlike (r : Renaming) (s s' : Scope) : Prop where
  labels_eq : s'.labels = s.labels.map (Prod.map (replaceName r.label) id)
  functions_eq : s'.functions = s.functions.map (Prod.map (replaceName r.function) id)
  length_eq : s'.length = s.length

section Scopes

variable {s s' : Scope} {l l' : SourceLine}

/-- A word for a label and the renamed one stand for the same offset. -/
theorem resolveLabel_both (hs : r.MeansAlike s s') (word : String) :
    Both Eq (s.resolveLabel word) (s'.resolveLabel (r.labelWord word)) := by
  unfold Scope.resolveLabel
  rw [labelOf?_labelWord]
  cases labelOf? word with
  | none => exact .error _ _
  | some name =>
    rw [Option.map_some, hs.labels_eq]
    dsimp only
    rw [lookup_map (replaceName_injective r.label), hs.length_eq]
    cases s.labels.lookup name with
    | none => exact .error _ _
    | some target =>
      dsimp only
      split_ifs
      · exact .ok rfl
      · exact .error _ _

/-- A word for a function and the renamed one stand for the same extent. -/
theorem resolveFunction_both (hs : r.MeansAlike s s') (word : String) :
    Both Eq (s.resolveFunction word) (s'.resolveFunction (r.functionWord word)) := by
  unfold Scope.resolveFunction
  rw [functionOf_functionWord, hs.functions_eq, lookup_map (replaceName_injective r.function)]
  cases s.functions.lookup (functionOf word) with
  | none => exact .error _ _
  | some extent => exact .ok rfl

/-- A word for an operand and the renamed one are resolved to the same doubles. -/
theorem resolve_both (hs : r.MeansAlike s s') (hl : r.Alike l l') (kind : OperandKind)
    (word : Option String) :
    Both Eq (s.resolve l kind word) (s'.resolve l' kind (word.map (r.operand kind))) := by
  have htext : (word.map (r.operand kind)).getD "" = r.operand kind (word.getD "") := by
    cases word with
    | none => exact (operand_empty kind).symm
    | some word => rfl
  unfold Scope.resolve
  rw [htext]
  cases kind with
  | mode =>
    simp only [operand, Option.map_id, id_eq, hl.opcode_eq]
    exact .refl _
  | location => exact .ok rfl
  | target =>
    refine ((resolveLabel_both hs _).mapError _ _).bind ?_
    rintro target _ rfl
    exact .ok rfl
  | function | bodyEnd =>
    refine ((resolveFunction_both hs _).mapError _ _).bind ?_
    rintro extent _ rfl
    exact .ok rfl
  | count | slot => exact .refl _
  | length | frameSize =>
    refine Both.bind (.refl _) ?_
    rintro n _ rfl
    split_ifs
    · exact .ok rfl
    · exact .error _ _

/-- The words of two lines that are alike are resolved to the same doubles. -/
theorem resolveAll_both (hs : r.MeansAlike s s') (hl : r.Alike l l') (kinds : List OperandKind)
    {tokens tokens' : List Token}
    (hwords : tokens'.map Token.text = r.operands kinds (tokens.map Token.text)) :
    Both Eq (s.resolveAll l kinds tokens) (s'.resolveAll l' kinds tokens') := by
  induction kinds generalizing tokens tokens' with
  | nil => exact .ok rfl
  | cons kind kinds ih =>
    have hhead : tokens'.head?.map Token.text =
        (tokens.head?.map Token.text).map (r.operand kind) := by
      rw [← List.head?_map, ← List.head?_map, hwords]
      cases tokens <;> rfl
    have htail : tokens'.tail.map Token.text = r.operands kinds (tokens.tail.map Token.text) := by
      rw [List.map_tail, List.map_tail, hwords]
      cases tokens with
      | nil => exact (operands_nil kinds).symm
      | cons token tokens => rfl
    unfold Scope.resolveAll
    rw [hhead]
    refine ((resolve_both hs hl kind _).mapError _ _).bind ?_
    rintro values _ rfl
    refine (ih htail).bind ?_
    rintro rest _ rfl
    exact .ok rfl

/-- Lines that are alike have the same instruction, or neither has one. -/
theorem emit_both (hs : r.MeansAlike s s') (hl : r.Alike l l') :
    Both Eq (s.emit l) (s'.emit l') := by
  have hlength : l'.operands.length = l.operands.length := by
    have hwords := congrArg List.length hl.words_eq
    rwa [List.length_map, length_operands, List.length_map] at hwords
  have harity : l'.hasArity = l.hasArity := by
    have hempty : l'.operands.isEmpty = l.operands.isEmpty := by
      rw [Bool.eq_iff_iff, List.isEmpty_iff_length_eq_zero, List.isEmpty_iff_length_eq_zero, hlength]
    rw [SourceLine.hasArity, SourceLine.hasArity, hlength, hl.opcode_eq, hempty]
  unfold Scope.emit
  rw [harity, hl.opcode_eq]
  split_ifs
  · refine (resolveAll_both hs hl _ hl.words_eq).bind ?_
    rintro values _ rfl
    exact .ok rfl
  · exact .error _ _

end Scopes

end Renaming

/-! ## Source texts -/

/-- Whether what was read as the words of a line is not blank. -/
def isWritten : Except Nat (List String) → Bool
  | .ok [] => false
  | _ => true

/-- The words of the lines of a source text, blank lines apart. -/
def written (source : String) : List (Except Nat (List String)) :=
  ((Text.lines source.toList).map lineWords).filter isWritten

/-- A line without a word says nothing. -/
theorem readLine_of_not_isWritten {line : List Char} (hline : isWritten (lineWords line) = false)
    (number : Nat) : readLine number line = .ok .blank := by
  unfold isWritten at hline
  split at hline
  · rename_i hwords
    rcases map_eq_ok.mp hwords with ⟨tokens, htokens, hnil⟩
    rw [List.map_eq_nil_iff] at hnil
    simp [readLine, htokens, hnil]
  · cases hline

/-- Blank lines do not count. -/
theorem collect_filter (numbered : List (List Char × Nat)) (labels : List (String × Nat))
    (offset : Nat) :
    collect labels offset (numbered.filter fun x => isWritten (lineWords x.1)) =
      collect labels offset numbered := by
  induction numbered generalizing labels offset with
  | nil => rfl
  | cons x numbered ih =>
    rcases x with ⟨line, number⟩
    by_cases hline : isWritten (lineWords line) = true
    · simp only [List.filter_cons, hline, if_true, collect, ih]
    · have hblank := readLine_of_not_isWritten (Bool.eq_false_iff.mpr hline) number
      simp only [List.filter_cons, hline, Bool.false_eq_true, if_false, ih]
      rw [collect, hblank]
      rfl

/-- The words of the lines that are not blank, when the lines are numbered first. -/
theorem written_eq (source : String) :
    written source = (((Text.lines source.toList).zipIdx 1).filter fun x =>
      isWritten (lineWords x.1)).map fun x => lineWords x.1 := by
  have hlines : (Text.lines source.toList).map lineWords =
      ((Text.lines source.toList).zipIdx 1).map fun x => lineWords x.1 := by
    nth_rewrite 1 [← List.zipIdx_map_fst 1 (Text.lines source.toList)]
    exact List.map_map
  rw [written, hlines, List.filter_map]
  rfl

namespace Renaming

variable {r : Renaming} {s t : String}

/-- Source texts whose lines are written alike, blank ones apart, have layouts that are
alike, or neither has one. -/
theorem layout_both
    (h : List.Forall₂ (Both fun words words' => words' = r.row words) (written s) (written t)) :
    Both r.LaidAlike (layout s) (layout t) := by
  rw [written_eq, written_eq, List.forall₂_map_left_iff, List.forall₂_map_right_iff] at h
  have hboth := collect_both h [] codeStart
  rwa [collect_filter, List.map_nil, collect_filter] at hboth

/-- Source texts whose lines are written alike, blank ones apart, assemble to the same program,
or neither assembles. -/
theorem assemble_both
    (h : List.Forall₂ (Both fun words words' => words' = r.row words) (written s) (written t)) :
    Both Eq (assemble s) (assemble t) := by
  have hinstructions : Both Eq (instructions s) (instructions t) := by
    unfold instructions
    refine (layout_both h).bind ?_
    intro l l' hl
    have hnone : r.OpenAlike none none := rfl
    refine (collectRoutines_both hl.lines [] hnone).bind ?_
    rintro fs _ rfl
    have hscope : r.MeansAlike ⟨l.labels, fs, l.length⟩
        ⟨l'.labels, fs.map (Prod.map (replaceName r.function) id), l'.length⟩ :=
      ⟨hl.labels_eq, rfl, hl.length_eq⟩
    exact both_mapM (hl.lines.imp fun _ _ hline => emit_both hscope hline)
  unfold assemble
  refine hinstructions.bind ?_
  rintro is _ rfl
  exact .ok rfl

end Renaming

end Assembly

end StackMachine
