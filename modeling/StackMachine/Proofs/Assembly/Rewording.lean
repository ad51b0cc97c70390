import StackMachine.Proofs.Assembly.Renaming

/-!
# Source texts with other spaces and other names

Spaces, commas, comments, carriage returns and blank lines do not count in a source text, and
neither do its names, as long as different names stay different.  A renaming is carried out
in place: each line keeps its separators and its comment, and the words between them are
written anew.  For that, words are told from what is around them: a word closes the brackets
it opens, so that the same places separate the words of the new line.

Main definitions:

- `wordFrom`, whether a text is a word;
- `linePieces`, `lineGaps`, `lineComment`, the parts of a line;
- `Renaming.line`, `Renaming.text`, a line and a source text with other names.

Main results:

- Theorem `lineWords_weave`: the words of a line that is put together from words and
  separators.
- Theorem `Renaming.lineWords_line`: the words of a line with other names.
- Theorem `Renaming.wordRows_text`: the rows of a source text with other names.
- Theorem `assemble_insignificant`: what makes no difference to an assembly.
-/

namespace StackMachine

open Fallible

namespace Assembly

/-! ## Words -/

/-- Whether characters stand in one word, from inside or outside of brackets on: those outside
neither separate nor start a comment, and the brackets are closed at the end. -/
def wordFrom (inside : Bool) : List Char → Bool
  | [] => !inside
  | c :: cs => (isWordChar c || inside && c != '\n') && wordFrom (insideAfter inside c) cs

/-- There is no line feed in a word. -/
theorem newline_not_mem_of_wordFrom {w : List Char} {inside : Bool}
    (hw : wordFrom inside w = true) : '\n' ∉ w := by
  induction w generalizing inside with
  | nil => simp
  | cons c w ih =>
    rw [wordFrom, Bool.and_eq_true] at hw
    rw [List.mem_cons, not_or]
    refine ⟨?_, ih hw.2⟩
    rintro rfl
    simp [isWordChar] at hw

/-- Whether a character is one of those that separate words. -/
def isGap (c : Char) : Bool := c == ',' || c == ' ' || c == '\t' || c == '\r'

/-- A character separates words if it is one of those that do and no bracket is open. -/
theorem isSeparator_eq (m : Mark) : m.isSeparator = (!m.inside && isGap m.char) := rfl

/-- Such a character neither opens nor closes a bracket. -/
theorem insideAfter_of_isGap {c : Char} (hc : isGap c = true) (inside : Bool) :
    insideAfter inside c = inside := by
  have hne : c ≠ '[' ∧ c ≠ ']' := by
    constructor <;> (rintro rfl; cases hc)
  simp [insideAfter, hne]

/-- Whether the position after some marks is inside, when the one before them is so or not. -/
def endsFrom (inside : Bool) (ms : List Mark) : Bool :=
  ms.foldl (fun inside m => insideAfter inside m.char) inside

theorem endsInside_eq_endsFrom (ms : List Mark) : endsInside ms = endsFrom false ms := rfl

theorem endsFrom_cons (inside : Bool) (m : Mark) (ms : List Mark) :
    endsFrom inside (m :: ms) = endsFrom (insideAfter inside m.char) ms := rfl

/-- Whether a bracket is open after two parts of a line is found from one part after the other. -/
theorem endsFrom_append (inside : Bool) (ms ms' : List Mark) :
    endsFrom inside (ms ++ ms') = endsFrom (endsFrom inside ms) ms' :=
  List.foldl_append

/-- The characters of a word are marked one by one, none of them is a separator, and what comes
after the word is outside of brackets. -/
theorem marks_append_of_wordFrom {w : List Char} {inside : Bool} (hw : wordFrom inside w = true)
    (column : Nat) (rest : List Char) :
    ∃ ms column', marks inside column (w ++ rest) = ms ++ marks false column' rest ∧
      ms.map Mark.char = w ∧ (∀ m ∈ ms, m.isSeparator = false) ∧ endsFrom inside ms = false := by
  induction w generalizing inside column with
  | nil =>
    have hinside : inside = false := by simpa [wordFrom] using hw
    rw [hinside]
    exact ⟨[], column, rfl, rfl, by simp, rfl⟩
  | cons c w ih =>
    rw [wordFrom, Bool.and_eq_true] at hw
    rcases ih hw.2 (column + c.utf8Size) with ⟨ms, column', hmarks, hchars, hplain, hends⟩
    have hcomment : ¬ (c = '#' ∧ inside = false) := by
      rintro ⟨rfl, rfl⟩
      cases hw.1
    have hseparator : Mark.isSeparator ⟨c, column, inside⟩ = false := by
      cases inside with
      | true => rfl
      | false =>
        have hc : isWordChar c = true := by simpa using hw.1
        simp only [isWordChar, Bool.not_eq_true', Bool.or_eq_false_iff] at hc
        simp [isSeparator_eq, isGap, hc]
    refine ⟨⟨c, column, inside⟩ :: ms, column', ?_, ?_, ?_, hends⟩
    · rw [List.cons_append, marks, if_neg hcomment, hmarks, List.cons_append]
    · rw [List.map_cons, hchars]
    · rw [List.forall_mem_cons]
      exact ⟨hseparator, hplain⟩

/-! ## Lines of words and separators -/

/-- The words of a line are its pieces that are not empty. -/
theorem map_text_filterMap (pieces : List (List Mark)) :
    (pieces.filterMap tokenOf?).map Token.text =
      ((pieces.map (List.map Mark.char)).filter fun w => !w.isEmpty).map String.ofList := by
  induction pieces with
  | nil => rfl
  | cons ms pieces ih =>
    cases ms with
    | nil =>
      rw [List.filterMap_cons_none rfl]
      exact ih
    | cons m ms =>
      rcases tokenOf?_text (List.cons_ne_nil m ms) with ⟨token, htoken, htext⟩
      rw [List.filterMap_cons_some htoken, List.map_cons, htext, ih]
      rfl

/-- The words of a line that closes its brackets are the pieces between separators that are not
empty. -/
theorem lineWords_eq {line : List Char} (hends : endsInside (marks false 1 line) = false) :
    lineWords line = .ok ((((Text.cut Mark.isSeparator (marks false 1 line)).map
      (List.map Mark.char)).filter fun w => !w.isEmpty).map String.ofList) := by
  rw [lineWords, tokenize]
  simp only [hends, Bool.false_eq_true, if_false]
  rw [← map_text_filterMap]
  rfl

/-- A line that has words closes its brackets. -/
theorem endsInside_of_lineWords {line : List Char} {words : List String}
    (hwords : lineWords line = .ok words) : endsInside (marks false 1 line) = false := by
  cases hends : endsInside (marks false 1 line) with
  | false => rfl
  | true =>
    rcases map_eq_ok.mp hwords with ⟨tokens, htokens, _⟩
    simp [tokenize, hends] at htokens

/-- A text that is empty or a comment. -/
def IsComment (text : List Char) : Prop := text = [] ∨ ∃ rest, text = '#' :: rest

/-- Nothing in a comment is marked. -/
theorem marks_of_isComment {text : List Char} (htext : IsComment text) (column : Nat) :
    marks false column text = [] := by
  rcases htext with rfl | ⟨rest, rfl⟩
  · rfl
  · simp [marks]

/-- A line that is put together from words and separators is cut into the words. -/
theorem cut_marks_weave {pieces : List (List Char)} {separators comment : List Char}
    (hlength : pieces.length = separators.length + 1)
    (hpieces : ∀ piece ∈ pieces, wordFrom false piece = true)
    (hseparators : ∀ c ∈ separators, isGap c = true) (hcomment : IsComment comment)
    (column : Nat) :
    (Text.cut Mark.isSeparator (marks false column (Text.weave pieces separators ++ comment))).map
        (List.map Mark.char) = pieces ∧
      endsInside (marks false column (Text.weave pieces separators ++ comment)) = false := by
  induction separators generalizing pieces column with
  | nil =>
    rcases List.length_eq_one_iff.mp hlength with ⟨piece, rfl⟩
    rw [List.forall_mem_singleton] at hpieces
    rcases marks_append_of_wordFrom hpieces column comment with
      ⟨ms, column', hmarks, hchars, hplain, hends⟩
    rw [marks_of_isComment hcomment, List.append_nil] at hmarks
    rw [Text.weave, hmarks, Text.cut_of_forall hplain, List.map_singleton, hchars]
    exact ⟨rfl, hends⟩
  | cons a separators ih =>
    cases pieces with
    | nil => cases hlength
    | cons piece pieces =>
      rw [List.forall_mem_cons] at hpieces hseparators
      rcases marks_append_of_wordFrom hpieces.1 column
          (a :: (Text.weave pieces separators ++ comment)) with
        ⟨ms, column', hmarks, hchars, hplain, hends⟩
      have hne : ¬ (a = '#' ∧ false = false) := by
        rintro ⟨rfl, _⟩
        cases hseparators.1
      rw [marks, if_neg hne, insideAfter_of_isGap hseparators.1] at hmarks
      rcases ih (Nat.succ.inj hlength) hpieces.2 hseparators.2 (column' + a.utf8Size) with
        ⟨hcut, hends'⟩
      have hgap : Mark.isSeparator ⟨a, column', false⟩ = true := hseparators.1
      rw [Text.weave, List.append_assoc, List.cons_append, hmarks,
        Text.cut_append_cons hplain hgap, List.map_cons, hchars, hcut]
      refine ⟨rfl, ?_⟩
      rw [endsInside_eq_endsFrom, endsFrom_append, hends, endsFrom_cons,
        insideAfter_of_isGap hseparators.1]
      exact hends'

/-- The words of a line that is put together from words and separators. -/
theorem lineWords_weave {pieces : List (List Char)} {separators comment : List Char}
    (hlength : pieces.length = separators.length + 1)
    (hpieces : ∀ piece ∈ pieces, wordFrom false piece = true)
    (hseparators : ∀ c ∈ separators, isGap c = true) (hcomment : IsComment comment) :
    lineWords (Text.weave pieces separators ++ comment) =
      .ok ((pieces.filter fun w => !w.isEmpty).map String.ofList) := by
  rcases cut_marks_weave hlength hpieces hseparators hcomment 1 with ⟨hcut, hends⟩
  rw [lineWords_eq hends, hcut]

/-! ## The parts of a line -/

/-- The pieces of a line that closes its brackets are words. -/
theorem wordFrom_of_cut {line : List Char} {inside : Bool} {column : Nat} (hline : '\n' ∉ line)
    (hends : endsFrom inside (marks inside column line) = false) {first : List Mark}
    {later : List (List Mark)}
    (hcut : Text.cut Mark.isSeparator (marks inside column line) = first :: later) :
    wordFrom inside (first.map Mark.char) = true ∧
      ∀ piece ∈ later, wordFrom false (piece.map Mark.char) = true := by
  induction line generalizing inside column first later with
  | nil =>
    cases hcut
    have hinside : inside = false := hends
    simp [wordFrom, hinside]
  | cons c line ih =>
    rw [List.mem_cons, not_or] at hline
    by_cases hcomment : c = '#' ∧ inside = false
    · rw [marks, if_pos hcomment] at hcut
      cases hcut
      simp [wordFrom, hcomment.2]
    · rw [marks, if_neg hcomment] at hcut hends
      rw [endsFrom_cons] at hends
      have hne : Text.cut Mark.isSeparator
          (marks (insideAfter inside c) (column + c.utf8Size) line) ≠ [] := Text.cut_ne_nil _
      rcases List.exists_cons_of_ne_nil hne with ⟨first', later', hcut'⟩
      rcases ih hline.2 hends hcut' with ⟨hfirst, hlater⟩
      cases hseparator : Mark.isSeparator ⟨c, column, inside⟩ with
      | true =>
        have hgap : inside = false ∧ isGap c = true := by
          simpa [isSeparator_eq] using hseparator
        rw [Text.cut, if_pos hseparator, hcut'] at hcut
        cases hcut
        rw [hgap.1, insideAfter_of_isGap hgap.2] at hfirst
        rw [List.forall_mem_cons]
        exact ⟨by simp [wordFrom, hgap.1], hfirst, hlater⟩
      | false =>
        rw [Text.cut_cons_of_neg hseparator hcut'] at hcut
        cases hcut
        refine ⟨?_, hlater⟩
        rw [List.map_cons, wordFrom, hfirst, Bool.and_true]
        cases inside with
        | true => simpa using Or.inr (Ne.symm hline.1)
        | false =>
          have houter : c ≠ '#' ∧ c ≠ ',' ∧ c ≠ ' ' ∧ c ≠ '\t' ∧ c ≠ '\r' := by
            simpa [isSeparator_eq, isGap, and_assoc] using And.intro hcomment hseparator
          simp [isWordChar, houter, Ne.symm hline.1]

/-- What is not marked of a line is a comment. -/
theorem isComment_drop_marks (line : List Char) (inside : Bool) (column : Nat) :
    IsComment (line.drop (marks inside column line).length) := by
  induction line generalizing inside column with
  | nil => exact Or.inl rfl
  | cons c line ih =>
    by_cases hcomment : c = '#' ∧ inside = false
    · rw [marks, if_pos hcomment, hcomment.1]
      exact Or.inr ⟨line, rfl⟩
    · rw [marks, if_neg hcomment]
      exact ih _ _

/-- A carriage return at the end of a line is inside of brackets that are not closed, or in
the comment, or separates. -/
theorem marks_concat_return (line : List Char) (inside : Bool) (column : Nat) :
    marks inside column (line ++ ['\r']) = marks inside column line ∨
      ∃ column', marks inside column (line ++ ['\r']) =
        marks inside column line ++
          [⟨'\r', column', endsFrom inside (marks inside column line)⟩] := by
  induction line generalizing inside column with
  | nil => exact Or.inr ⟨column, by simp [marks, endsFrom]⟩
  | cons c line ih =>
    by_cases hcomment : c = '#' ∧ inside = false
    · left
      rw [List.cons_append, marks, if_pos hcomment, marks, if_pos hcomment]
    · rw [List.cons_append, marks, if_neg hcomment, marks, if_neg hcomment]
      rcases ih (insideAfter inside c) (column + c.utf8Size) with hsame | ⟨column', hreturn⟩
      · left
        rw [hsame]
      · right
        refine ⟨column', ?_⟩
        rw [hreturn]
        rfl

/-- A carriage return at the end of a line does not change its tokens. -/
theorem tokenize_concat_return (line : List Char) : tokenize (line ++ ['\r']) = tokenize line := by
  unfold tokenize
  rcases marks_concat_return line false 1 with hsame | ⟨column, hreturn⟩
  · rw [hsame]
  · rw [hreturn]
    generalize marks false 1 line = ms
    have hends : endsInside (ms ++ [⟨'\r', column, endsFrom false ms⟩]) = endsInside ms := by
      rw [endsInside_eq_endsFrom, endsFrom_append]
      rfl
    have hopening : lastOpening (ms ++ [⟨'\r', column, endsFrom false ms⟩]) = lastOpening ms := by
      simp [lastOpening]
    dsimp only
    rw [hends, hopening]
    cases hinside : endsInside ms with
    | true => rfl
    | false =>
      rw [endsInside_eq_endsFrom] at hinside
      rw [hinside, Text.cut_concat rfl]
      simp [tokenOf?]

/-- Nor does it change the words. -/
theorem lineWords_stripReturn (line : List Char) :
    lineWords (Text.stripReturn line) = lineWords line := by
  unfold Text.stripReturn
  split
  · rename_i hlast
    rcases List.getLast?_eq_some_iff.mp hlast with ⟨init, rfl⟩
    rw [List.dropLast_concat, lineWords, lineWords, tokenize_concat_return]
  · rfl

/-! ## Lines with other names -/

/-- Words in place of the pieces that are not empty. -/
def fill : List String → List (List Char) → List (List Char)
  | word :: words, (_ :: _) :: pieces => word.toList :: fill words pieces
  | words, piece :: pieces => piece :: fill words pieces
  | _, [] => []

theorem fill_nil_cons (words : List String) (pieces : List (List Char)) :
    fill words ([] :: pieces) = [] :: fill words pieces := by
  cases words <;> rfl

theorem fill_nil (pieces : List (List Char)) : fill [] pieces = pieces := by
  induction pieces with
  | nil => rfl
  | cons piece pieces ih => exact congrArg (piece :: ·) ih

theorem length_fill (words : List String) (pieces : List (List Char)) :
    (fill words pieces).length = pieces.length := by
  fun_induction fill words pieces <;> simp_all

/-- Words in place of as many pieces are the new pieces that are not empty. -/
theorem filter_fill {words : List String} {pieces : List (List Char)}
    (hlength : words.length = (pieces.filter fun w => !w.isEmpty).length)
    (hwords : ∀ w ∈ words, w ≠ "") :
    ((fill words pieces).filter fun w => !w.isEmpty).map String.ofList = words := by
  induction pieces generalizing words with
  | nil =>
    rw [List.length_eq_zero_iff.mp hlength]
    rfl
  | cons piece pieces ih =>
    cases piece with
    | nil =>
      rw [fill_nil_cons, List.filter_cons_of_neg (by simp)]
      exact ih hlength hwords
    | cons c cs =>
      cases words with
      | nil => cases hlength
      | cons word words =>
        rw [List.forall_mem_cons] at hwords
        have hne : word.toList.isEmpty = false := by simpa using hwords.1
        simp only [fill, List.filter_cons, hne, Bool.not_false, if_true, List.map_cons,
          String.ofList_toList, ih (Nat.succ.inj hlength) hwords.2]

/-- What holds of the words and of the pieces holds of the new pieces. -/
theorem forall_mem_fill {P : List Char → Prop} {words : List String} {pieces : List (List Char)}
    (hwords : ∀ w ∈ words, P w.toList) (hpieces : ∀ piece ∈ pieces, P piece) :
    ∀ piece ∈ fill words pieces, P piece := by
  fun_induction fill words pieces <;> simp_all

/-- The pieces of a line between its separators. -/
def linePieces (line : List Char) : List (List Char) :=
  (Text.cut Mark.isSeparator (marks false 1 line)).map (List.map Mark.char)

/-- The separators of a line. -/
def lineGaps (line : List Char) : List Char :=
  ((marks false 1 line).filter Mark.isSeparator).map Mark.char

/-- The comment of a line. -/
def lineComment (line : List Char) : List Char := line.drop (marks false 1 line).length

/-- The parts of a line make up the line. -/
theorem weave_parts (line : List Char) :
    Text.weave (linePieces line) (lineGaps line) ++ lineComment line = line := by
  rw [linePieces, lineGaps, lineComment, ← Text.map_weave, Text.weave_cut, map_char_eq_take,
    List.take_append_drop]

/-- What the parts of a line are that can be read. -/
structure Parted (line : List Char) (words : List String) : Prop where
  length_eq : (linePieces line).length = (lineGaps line).length + 1
  pieces : ∀ piece ∈ linePieces line, wordFrom false piece = true
  gaps : ∀ c ∈ lineGaps line, isGap c = true
  comment : IsComment (lineComment line)
  words_eq : words = ((linePieces line).filter fun w => !w.isEmpty).map String.ofList

/-- A line that has words consists of pieces that are words or empty, separators, and a comment. -/
theorem parted_of_lineWords {line : List Char} {words : List String} (hline : '\n' ∉ line)
    (hwords : lineWords line = .ok words) : Parted line words where
  length_eq := by
    rw [linePieces, lineGaps, List.length_map, List.length_map, Text.length_cut]
  pieces := by
    have hends := endsInside_of_lineWords hwords
    rcases List.exists_cons_of_ne_nil (Text.cut_ne_nil (marks false 1 line)) with
      ⟨first, later, hcut⟩
    rcases wordFrom_of_cut hline hends hcut with ⟨hfirst, hlater⟩
    rw [linePieces, hcut, List.map_cons, List.forall_mem_cons, List.forall_mem_map]
    exact ⟨hfirst, hlater⟩
  gaps := by
    intro c hc
    rcases List.mem_map.mp hc with ⟨m, hm, rfl⟩
    have hseparator := (List.mem_filter.mp hm).2
    rw [isSeparator_eq, Bool.and_eq_true] at hseparator
    exact hseparator.2
  comment := isComment_drop_marks line false 1
  words_eq := by
    rw [lineWords_eq (endsInside_of_lineWords hwords)] at hwords
    exact (Except.ok.inj hwords).symm

/-! ## Words with other names -/

/-- A name is a word. -/
theorem wordFrom_of_isName {name : String} (hname : isName name = true) :
    wordFrom false name.toList = true := by
  have hchars : ∀ c ∈ name.toList, isNameChar c = true := by
    simp only [isName, Bool.and_eq_true, List.all_eq_true] at hname
    exact hname.1.2
  generalize name.toList = cs at hchars
  induction cs with
  | nil => rfl
  | cons c cs ih =>
    rw [List.forall_mem_cons] at hchars
    have hc : isWordChar c = true ∧ insideAfter false c = false := by
      have hplain : (isWordChar c = true ∧ c ≠ '[') ∧ c ≠ ']' := by
        simpa [isNameChar, isPlainChar] using hchars.1
      exact ⟨hplain.1.1, by simp [insideAfter, hplain.1.2]⟩
    rw [wordFrom, hc.1, hc.2, ih hchars.2]
    rfl

/-- A word is still one when it is renamed. -/
theorem wordFrom_replaceName {f : Name ↪ Name} {text : String}
    (htext : wordFrom false text.toList = true) :
    wordFrom false (replaceName f text).toList = true := by
  by_cases hname : isName text = true
  · exact wordFrom_of_isName (isName_replaceName_iff.mpr hname)
  · rwa [replaceName_of_not_isName hname]

theorem wordFrom_colon (name : String) :
    wordFrom false (":" ++ name).toList = wordFrom false name.toList := by
  rw [String.toList_append]
  rfl

/-- A text that can be a word of a row. -/
structure IsToken (word : String) : Prop where
  ne_empty : word ≠ ""
  wordFrom_eq : wordFrom false word.toList = true

/-- A word with a colon in front is a token, even if it is empty. -/
theorem isToken_colon {name : String} (hname : wordFrom false name.toList = true) :
    IsToken (":" ++ name) where
  ne_empty := by simp [← String.toList_inj]
  wordFrom_eq := (wordFrom_colon name).trans hname

namespace Renaming

variable {r : Renaming}

/-- The word for a label that is renamed is a token. -/
theorem isToken_labelWord {word : String} (hword : IsToken word) : IsToken (r.labelWord word) := by
  unfold labelWord
  cases hlabel : labelOf? word with
  | none => exact hword
  | some name =>
    have hname := hword.wordFrom_eq
    rw [labelOf?_eq_some.mp hlabel, wordFrom_colon] at hname
    exact isToken_colon (wordFrom_replaceName hname)

/-- The word for a function that is renamed is a token. -/
theorem isToken_functionWord {word : String} (hword : IsToken word) :
    IsToken (r.functionWord word) := by
  unfold functionWord
  cases hlabel : labelOf? word with
  | none =>
    refine ⟨?_, wordFrom_replaceName hword.wordFrom_eq⟩
    rw [ne_eq, replaceName_eq_empty]
    exact hword.ne_empty
  | some name =>
    have hname := hword.wordFrom_eq
    rw [labelOf?_eq_some.mp hlabel, wordFrom_colon] at hname
    exact isToken_colon (wordFrom_replaceName hname)

/-- The words for operands that are renamed are tokens. -/
theorem isToken_operands {kinds : List OperandKind} {words : List String}
    (hwords : ∀ w ∈ words, IsToken w) : ∀ w ∈ r.operands kinds words, IsToken w := by
  induction kinds generalizing words with
  | nil => exact hwords
  | cons kind kinds ih =>
    cases words with
    | nil => exact hwords
    | cons word words =>
      rw [List.forall_mem_cons] at hwords
      rw [operands, List.forall_mem_cons]
      refine ⟨?_, ih hwords.2⟩
      cases kind with
      | target => exact isToken_labelWord hwords.1
      | function | bodyEnd => exact isToken_functionWord hwords.1
      | _ => exact hwords.1

/-- The words of a row with other names can be words. -/
theorem isToken_row {words : List String} (hwords : ∀ w ∈ words, IsToken w) :
    ∀ w ∈ r.row words, IsToken w := by
  cases words with
  | nil => exact hwords
  | cons first words =>
    rw [List.forall_mem_cons] at hwords
    rw [row]
    cases Opcode.ofMnemonic? first with
    | some op =>
      rw [List.forall_mem_cons]
      exact ⟨hwords.1, isToken_operands hwords.2⟩
    | none =>
      rw [List.forall_mem_cons]
      exact ⟨isToken_labelWord hwords.1, hwords.2⟩

theorem length_row (words : List String) : (r.row words).length = words.length := by
  cases words with
  | nil => rfl
  | cons first words =>
    rw [row]
    cases Opcode.ofMnemonic? first with
    | some op => rw [List.length_cons, length_operands, List.length_cons]
    | none => rfl

/-- A line with other names: the words are written anew between the separators. -/
def line (r : Renaming) (line : List Char) : List Char :=
  match lineWords line with
  | .ok words =>
    Text.weave (fill (r.row words) (linePieces line)) (lineGaps line) ++ lineComment line
  | .error _ => line

/-- The words that are to be written anew in a line are words, and the pieces of the new line are
words or empty. -/
theorem row_of_parted {words : List String} {line : List Char} (h : Parted line words) :
    (∀ w ∈ r.row words, IsToken w) ∧
      ∀ piece ∈ fill (r.row words) (linePieces line), wordFrom false piece = true := by
  have hwords : ∀ w ∈ words, IsToken w := by
    intro w hw
    rw [h.words_eq] at hw
    rcases List.mem_map.mp hw with ⟨piece, hpiece, rfl⟩
    rcases List.mem_filter.mp hpiece with ⟨hmem, hne⟩
    refine ⟨?_, ?_⟩
    · simpa [← String.toList_inj] using hne
    · rw [String.toList_ofList]
      exact h.pieces piece hmem
  refine ⟨isToken_row hwords, ?_⟩
  exact forall_mem_fill (fun w hw => (isToken_row hwords w hw).wordFrom_eq) h.pieces

/-- The words of a line with other names are those of its row with other names. -/
theorem lineWords_line {line : List Char} (hline : '\n' ∉ line) :
    r.WrittenAlike line (r.line line) := by
  unfold WrittenAlike Renaming.line
  cases hwords : lineWords line with
  | error e =>
    dsimp only
    rw [hwords]
    exact .error e e
  | ok words =>
    have h := parted_of_lineWords hline hwords
    rcases row_of_parted (r := r) h with ⟨htokens, hpieces⟩
    have hlength : (fill (r.row words) (linePieces line)).length = (lineGaps line).length + 1 := by
      rw [length_fill, h.length_eq]
    have hcount : (r.row words).length =
        ((linePieces line).filter fun w => !w.isEmpty).length := by
      rw [length_row, h.words_eq, List.length_map]
    dsimp only
    rw [lineWords_weave hlength hpieces h.gaps h.comment,
      filter_fill hcount fun w hw => (htokens w hw).ne_empty]
    exact .ok rfl

/-- A line without words stays as it is. -/
theorem line_of_lineWords_nil {line : List Char} (hwords : lineWords line = .ok []) :
    r.line line = line := by
  rw [Renaming.line, hwords]
  dsimp only
  rw [row, fill_nil, weave_parts]

/-- A line that is renamed is empty exactly when it was. -/
theorem isEmpty_line {line : List Char} (hline : '\n' ∉ line) :
    (r.line line).isEmpty = line.isEmpty := by
  rw [Bool.eq_iff_iff, List.isEmpty_iff, List.isEmpty_iff]
  constructor
  · intro hempty
    have hnil : lineWords [] = .ok [] := rfl
    have hboth := lineWords_line (r := r) hline
    rw [WrittenAlike, hempty, hnil] at hboth
    generalize hwords : lineWords line = x at hboth
    cases hboth with
    | @ok words _ hrow =>
      have hlength := length_row (r := r) words
      rw [← hrow] at hlength
      rw [List.length_eq_zero_iff.mp hlength.symm] at hwords
      rw [← hempty, line_of_lineWords_nil hwords]
  · rintro rfl
    exact line_of_lineWords_nil rfl

/-- A line that is renamed is still one line. -/
theorem newline_not_mem_line {line : List Char} (hline : '\n' ∉ line) : '\n' ∉ r.line line := by
  unfold Renaming.line
  cases hwords : lineWords line with
  | error e => exact hline
  | ok words =>
    have h := parted_of_lineWords hline hwords
    dsimp only
    rw [List.mem_append, not_or]
    refine ⟨?_, fun hmem => hline (List.mem_of_mem_drop hmem)⟩
    intro hmem
    rcases Text.mem_weave hmem with ⟨piece, hpiece, hmem⟩ | hmem
    · exact newline_not_mem_of_wordFrom ((row_of_parted h).2 piece hpiece) hmem
    · cases h.gaps _ hmem

/-- A source text with other names. -/
def text (r : Renaming) (source : String) : String :=
  String.ofList (List.intercalate ['\n'] ((Text.cut (· == '\n') source.toList).map r.line))

end Renaming

/-! ## Source texts -/

/-- The words of the lines of a source text are those of the pieces between its line feeds; the
last piece is no line if it is empty. -/
theorem map_lineWords_lines {text : List Char} {init : List (List Char)} {last : List Char}
    (hcut : Text.cut (· == '\n') text = init ++ [last]) :
    (Text.lines text).map lineWords =
      init.map lineWords ++ if last.isEmpty then [] else [lineWords last] := by
  have hstrip : (init.map Text.stripReturn).map lineWords = init.map lineWords := by
    rw [List.map_map]
    exact List.map_congr_left fun line _ => lineWords_stripReturn line
  rw [Text.lines, hcut]
  simp only [List.getLast?_concat, List.dropLast_concat, Option.getD_some, List.map_append, hstrip]
  cases last with
  | nil => rfl
  | cons c cs => rfl

/-- A source text has the given rows exactly when each of its lines has its row. -/
theorem wordRows_eq_ok_iff_map {source : String} {rows : List (List String)} :
    wordRows source = .ok rows ↔ (Text.lines source.toList).map lineWords = rows.map .ok := by
  rw [wordRows, mapM_eq_ok, ← List.forall₂_eq_eq_eq, List.forall₂_map_left_iff,
    List.forall₂_map_right_iff]

/-- The rows of a source text that are not empty are those of its written lines. -/
theorem written_of_wordRows {source : String} {rows : List (List String)}
    (hrows : wordRows source = .ok rows) : written source = (rows.filter (· ≠ [])).map .ok := by
  have hblank : isWritten ∘ .ok = fun row : List String => decide (row ≠ []) := by
    funext row
    cases row <;> rfl
  rw [written, wordRows_eq_ok_iff_map.mp hrows, List.filter_map, hblank]

/-- The pieces between line feeds have none. -/
theorem newline_not_mem_of_mem_cut {text line : List Char}
    (hline : line ∈ Text.cut (· == '\n') text) : '\n' ∉ line := by
  intro hmem
  have hnot := Text.not_isSeparator_of_mem_cut hline '\n' hmem
  simp at hnot

namespace Renaming

variable {r : Renaming}

/-- The lines of a renamed text are the renamed lines. -/
theorem cut_text (r : Renaming) (source : String) :
    Text.cut (· == '\n') (r.text source).toList =
      (Text.cut (· == '\n') source.toList).map r.line := by
  rw [text, String.toList_ofList]
  refine Text.cut_intercalate rfl ?_ ?_
  · rw [ne_eq, List.map_eq_nil_iff]
    exact Text.cut_ne_nil _
  · rw [List.forall_mem_map]
    intro line hline c hc
    rw [beq_eq_false_iff_ne]
    rintro rfl
    exact newline_not_mem_line (newline_not_mem_of_mem_cut hline) hc

/-- A row that is renamed is blank exactly when it was. -/
theorem isWritten_iff {x y : Except Nat (List String)}
    (h : Both (fun words words' => words' = r.row words) x y) :
    isWritten x = true ↔ isWritten y = true := by
  cases h with
  | error e e' => exact Iff.rfl
  | @ok words _ h =>
    subst h
    have hlength := length_row (r := r) words
    cases words with
    | nil => exact Iff.rfl
    | cons first words =>
      cases hrow : r.row (first :: words) with
      | nil => simp [hrow] at hlength
      | cons first' words' => exact Iff.rfl

/-- The words of the lines of a source text with other names. -/
theorem lineWords_text (r : Renaming) (source : String) :
    List.Forall₂ (Both fun words words' => words' = r.row words)
      ((Text.lines source.toList).map lineWords)
      ((Text.lines (r.text source).toList).map lineWords) := by
  have hne : Text.cut (· == '\n') source.toList ≠ [] := Text.cut_ne_nil _
  rcases List.eq_nil_or_concat (Text.cut (· == '\n') source.toList) with hnil | ⟨init, last, hcut⟩
  · exact absurd hnil hne
  rw [List.concat_eq_append] at hcut
  have hcut' := r.cut_text source
  rw [hcut, List.map_append, List.map_singleton] at hcut'
  have hpieces : ∀ line ∈ init ++ [last], '\n' ∉ line := by
    rw [← hcut]
    exact fun line => newline_not_mem_of_mem_cut
  rw [List.forall_mem_append, List.forall_mem_singleton] at hpieces
  rw [map_lineWords_lines hcut, map_lineWords_lines hcut', isEmpty_line hpieces.2]
  refine List.rel_append ?_ ?_
  · rw [List.forall₂_map_left_iff, List.forall₂_map_right_iff, List.forall₂_map_right_iff,
      List.forall₂_same]
    exact fun line hline => lineWords_line (hpieces.1 line hline)
  · cases last.isEmpty with
    | true => exact .nil
    | false => exact .cons (lineWords_line hpieces.2) .nil

/-- The written lines of a renamed text are the renamed ones. -/
theorem written_text (r : Renaming) (source : String) :
    List.Forall₂ (Both fun words words' => words' = r.row words) (written source)
      (written (r.text source)) :=
  List.rel_filter (fun _ _ h => isWritten_iff h) (r.lineWords_text source)

/-- The rows of a source text with other names are its rows with other names. -/
theorem wordRows_text (r : Renaming) {source : String} {rows : List (List String)}
    (hrows : wordRows source = .ok rows) : wordRows (r.text source) = .ok (rows.map r.row) := by
  have hboth := r.lineWords_text source
  rw [wordRows_eq_ok_iff_map.mp hrows] at hboth
  rw [wordRows_eq_ok_iff_map]
  exact eq_of_forall₂_both hboth

end Renaming

/-- Source texts that have the same words line by line, blank lines apart, assemble to the same
program or do not assemble.  A source text with other names for its labels and its functions
has these names where it had the old ones, and it too assembles to the same program or does
not assemble. -/
theorem assemble_insignificant :
    (∀ s t rows rows', wordRows s = .ok rows → wordRows t = .ok rows' →
      rows.filter (· ≠ []) = rows'.filter (· ≠ []) →
      ∀ p, assemble s = .ok p ↔ assemble t = .ok p) ∧
    ∀ (r : Renaming) (s : String),
      (∀ rows, wordRows s = .ok rows → wordRows (r.text s) = .ok (rows.map r.row)) ∧
      ∀ p, assemble s = .ok p ↔ assemble (r.text s) = .ok p := by
  refine ⟨?_, ?_⟩
  · intro s t rows rows' hs ht hsame p
    have hwritten : written s = written t := by
      rw [written_of_wordRows hs, written_of_wordRows ht, hsame]
    have hboth : List.Forall₂ (Both fun words words' => words' = Renaming.refl.row words)
        (written s) (written t) := by
      rw [← hwritten, List.forall₂_same]
      intro x _
      cases x with
      | error e => exact .error e e
      | ok words => exact .ok (Renaming.row_refl words).symm
    exact (Renaming.assemble_both hboth).ok_iff
  · intro r s
    refine ⟨fun rows hrows => r.wordRows_text hrows, ?_⟩
    intro p
    exact (Renaming.assemble_both (r.written_text s)).ok_iff

/-- A function and a label of one name, which a renaming tells apart. -/
def namesExample : String := "JMP :a\nFD a, 1, 0\nENDFUNC\n:a\nPUSH 1\nCALL :a\n"

/-- The same words with other spaces, comments and blank lines. -/
def spacedExample : String := "JMP :a # on\r\n\nFD,a 1\t0\n ENDFUNC\n:a,\nPUSH 1 # [\nCALL :a"

/-- The names `a` and `b` of labels exchanged. -/
def exchangedLabels : Renaming :=
  ⟨(Equiv.swap ⟨"a", by decide⟩ ⟨"b", by decide⟩).toEmbedding, .refl Name⟩

/-- The source text assembles to the same program with other spaces and comments, and with its
labels renamed, though a function has the name of a label. -/
theorem assemble_namesExample :
    (∃ p, assemble namesExample = .ok p) ∧
    (∃ rows rows', wordRows namesExample = .ok rows ∧ wordRows spacedExample = .ok rows' ∧
      rows.filter (· ≠ []) = rows'.filter (· ≠ []) ∧
      ∀ p, assemble namesExample = .ok p ↔ assemble spacedExample = .ok p) ∧
    exchangedLabels.text spacedExample =
      "JMP :b # on\r\n\nFD,a 1\t0\n ENDFUNC\n:b,\nPUSH 1 # [\nCALL :a" ∧
    ∀ p, assemble spacedExample = .ok p ↔ assemble (exchangedLabels.text spacedExample) = .ok p := by
  have hsize : Program.size <$> assemble namesExample = .ok 67 := by decide +kernel
  rcases map_eq_ok.mp hsize with ⟨p, hp, _⟩
  have hrows : wordRows namesExample = .ok [["JMP", ":a"], ["FD", "a", "1", "0"], ["ENDFUNC"],
    [":a"], ["PUSH", "1"], ["CALL", ":a"]] := by decide +kernel
  have hrows' : wordRows spacedExample = .ok [["JMP", ":a"], [], ["FD", "a", "1", "0"],
    ["ENDFUNC"], [":a"], ["PUSH", "1"], ["CALL", ":a"]] := by decide +kernel
  refine ⟨⟨p, hp⟩, ⟨_, _, hrows, hrows', by decide, ?_⟩, by decide +kernel, ?_⟩
  · exact assemble_insignificant.1 _ _ _ _ hrows hrows' (by decide)
  · exact (assemble_insignificant.2 exchangedLabels spacedExample).2

end Assembly

end StackMachine
