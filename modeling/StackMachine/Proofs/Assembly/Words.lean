import Mathlib.Tactic.Set
import StackMachine.Assembly.Layout
import StackMachine.Proofs.Text.Cut

/-!
# Lines of words

A line of words with a blank between any two has these words as its tokens.  A word is any
text without separators and comment marks that closes the brackets it opens, so mnemonics,
numerals, names and addresses are words.

Main results:

- Theorem `tokenize_words`: the tokens of a line of words are the words.
- Theorems `readLine_instruction`, `readLine_label`: what lines of words say.
-/

namespace StackMachine.Assembly

/-! ## Words -/

/-- Whether a character stands in words: it neither separates, nor starts a comment, nor ends
a line. -/
def isWordChar (c : Char) : Bool :=
  !(c == '#' || c == ',' || c == ' ' || c == '\t' || c == '\r' || c == '\n')

/-- Whether a text is a word. -/
structure IsWord (w : List Char) : Prop where
  ne_nil : w ≠ []
  chars : ∀ c ∈ w, isWordChar c = true
  closed : w.foldl insideAfter false = false

/-- Whether a character stands in words and opens no bracket. -/
def isPlainChar (c : Char) : Bool := isWordChar c && c != '['

/-- Without an opening bracket nothing is inside. -/
theorem foldl_insideAfter_of_notMem {cs : List Char} (hcs : '[' ∉ cs) :
    cs.foldl insideAfter false = false := by
  induction cs with
  | nil => rfl
  | cons c cs ih =>
    rw [List.mem_cons, not_or] at hcs
    have hafter : insideAfter false c = false := by simp [insideAfter, Ne.symm hcs.1]
    rw [List.foldl_cons, hafter]
    exact ih hcs.2

/-- A text of such characters is a word. -/
theorem isWord_of_all {w : List Char} (hne : w ≠ []) (hall : w.all isPlainChar = true) :
    IsWord w := by
  have hchars : ∀ c ∈ w, isWordChar c = true ∧ c ≠ '[' := by
    simpa [isPlainChar] using hall
  refine ⟨hne, fun c hc => (hchars c hc).1, ?_⟩
  apply foldl_insideAfter_of_notMem
  intro hmem
  exact (hchars _ hmem).2 rfl

/-! ## Marks -/

theorem ne_hash_of_isWordChar {c : Char} (hc : isWordChar c = true) : c ≠ '#' := by
  rintro rfl
  cases hc

/-- The marks of two texts are those of the first and, from where it ends, those of the second. -/
theorem marks_append {as : List Char} (has : '#' ∉ as) (inside : Bool) (column : Nat)
    (bs : List Char) :
    ∃ column', marks inside column (as ++ bs) =
      marks inside column as ++ marks (as.foldl insideAfter inside) column' bs := by
  induction as generalizing inside column with
  | nil => exact ⟨column, rfl⟩
  | cons a as ih =>
    rw [List.mem_cons, not_or] at has
    rcases ih has.2 (insideAfter inside a) (column + a.utf8Size) with ⟨column', hrest⟩
    refine ⟨column', ?_⟩
    simp [marks, Ne.symm has.1, hrest]

/-- Every character before a comment is marked. -/
theorem map_char_marks {as : List Char} (has : '#' ∉ as) (inside : Bool) (column : Nat) :
    (marks inside column as).map Mark.char = as := by
  induction as generalizing inside column with
  | nil => rfl
  | cons a as ih =>
    rw [List.mem_cons, not_or] at has
    simp [marks, Ne.symm has.1, ih has.2]

/-- The marked characters are the first ones of the line. -/
theorem map_char_eq_take (line : List Char) (inside : Bool) (column : Nat) :
    (marks inside column line).map Mark.char = line.take (marks inside column line).length := by
  induction line generalizing inside column with
  | nil => rfl
  | cons c line ih =>
    by_cases hcomment : c = '#' ∧ inside = false
    · rw [marks, if_pos hcomment]
      rfl
    · rw [marks, if_neg hcomment, List.map_cons, ih]
      rfl

theorem endsInside_eq (ms : List Mark) :
    endsInside ms = (ms.map Mark.char).foldl insideAfter false := by
  rw [endsInside, List.foldl_map]

/-- The characters of a word are no separators. -/
theorem isSeparator_marks {w : List Char} (hw : IsWord w) (column : Nat) :
    ∀ m ∈ marks false column w, m.isSeparator = false := by
  have hhash : '#' ∉ w := fun hmem => ne_hash_of_isWordChar (hw.chars _ hmem) rfl
  intro m hm
  have hchar : m.char ∈ w := by
    rw [← map_char_marks hhash false column]
    exact List.mem_map_of_mem hm
  have hplain := hw.chars _ hchar
  simp only [isWordChar, Bool.not_eq_true', Bool.or_eq_false_iff] at hplain
  simp [Mark.isSeparator, hplain]

/-! ## Lines of words -/

/-- The characters of a line of words are blanks, or stand in words. -/
theorem mem_words {ws : List (List Char)} (hws : ∀ w ∈ ws, IsWord w) {c : Char}
    (hc : c ∈ List.intercalate [' '] ws) : c = ' ' ∨ isWordChar c = true := by
  induction ws with
  | nil => cases hc
  | cons w ws ih =>
    rw [List.forall_mem_cons] at hws
    cases ws with
    | nil =>
      rw [List.intercalate_singleton] at hc
      exact Or.inr (hws.1.chars c hc)
    | cons w' ws =>
      rw [List.intercalate_cons_cons, List.append_assoc] at hc
      rcases List.mem_append.mp hc with hc | hc
      · exact Or.inr (hws.1.chars c hc)
      · rcases List.mem_append.mp hc with hc | hc
        · exact Or.inl (List.mem_singleton.mp hc)
        · exact ih hws.2 hc

/-- A line of words has no other characters than those of the words and blanks. -/
theorem not_mem_words {ws : List (List Char)} (hws : ∀ w ∈ ws, IsWord w) {c : Char}
    (hblank : c ≠ ' ') (hc : isWordChar c = false) : c ∉ List.intercalate [' '] ws := by
  intro hmem
  rcases mem_words hws hmem with heq | hword
  · exact hblank heq
  · rw [hc] at hword
    cases hword

/-- A line of words closes its brackets. -/
theorem closed_words {ws : List (List Char)} (hws : ∀ w ∈ ws, IsWord w) :
    (List.intercalate [' '] ws).foldl insideAfter false = false := by
  induction ws with
  | nil => rfl
  | cons w ws ih =>
    rw [List.forall_mem_cons] at hws
    cases ws with
    | nil => simpa using hws.1.closed
    | cons w' ws =>
      have hblank : insideAfter false ' ' = false := rfl
      rw [List.intercalate_cons_cons, List.foldl_append, List.foldl_append, hws.1.closed,
        List.foldl_cons, List.foldl_nil, hblank, ih hws.2]

/-- The pieces of a line of words are the words. -/
theorem cut_words {ws : List (List Char)} (hne : ws ≠ []) (hws : ∀ w ∈ ws, IsWord w)
    (column : Nat) :
    (Text.cut Mark.isSeparator (marks false column (List.intercalate [' '] ws))).map
      (List.map Mark.char) = ws := by
  induction ws generalizing column with
  | nil => exact absurd rfl hne
  | cons w ws ih =>
    rw [List.forall_mem_cons] at hws
    have hhash : '#' ∉ w := fun hmem => ne_hash_of_isWordChar (hws.1.chars _ hmem) rfl
    have hpiece := isSeparator_marks hws.1 column
    cases ws with
    | nil =>
      rw [List.intercalate_singleton, Text.cut_of_forall hpiece, List.map_singleton,
        map_char_marks hhash]
    | cons w' ws =>
      rcases marks_append hhash false column (' ' :: List.intercalate [' '] (w' :: ws)) with
        ⟨column', hmarks⟩
      rw [List.intercalate_cons_cons, List.append_assoc, List.singleton_append, hmarks,
        hws.1.closed, marks, if_neg (by simp), Text.cut_append_cons hpiece rfl, List.map_cons,
        map_char_marks hhash]
      exact congrArg (w :: ·) (ih (by simp) hws.2 _)

/-- A piece that is not empty is a token with the text of the piece. -/
theorem tokenOf?_text {ms : List Mark} (hms : ms ≠ []) :
    ∃ token, tokenOf? ms = some token ∧ token.text = String.ofList (ms.map Mark.char) := by
  cases ms with
  | nil => exact absurd rfl hms
  | cons m ms => exact ⟨_, rfl, rfl⟩

/-- Pieces that are not empty are a token each. -/
theorem filterMap_tokenOf? {pieces : List (List Mark)} (hpieces : ∀ ms ∈ pieces, ms ≠ []) :
    (pieces.filterMap tokenOf?).map Token.text =
      pieces.map fun ms => String.ofList (ms.map Mark.char) := by
  induction pieces with
  | nil => rfl
  | cons ms pieces ih =>
    rw [List.forall_mem_cons] at hpieces
    rcases tokenOf?_text hpieces.1 with ⟨token, htoken, htext⟩
    rw [List.filterMap_cons_some htoken, List.map_cons, List.map_cons, htext, ih hpieces.2]

/-- The tokens of a line of words are the words. -/
theorem tokenize_words {ws : List (List Char)} (hne : ws ≠ []) (hws : ∀ w ∈ ws, IsWord w) :
    ∃ tokens, tokenize (List.intercalate [' '] ws) = .ok tokens ∧
      tokens.map Token.text = ws.map String.ofList := by
  have hcut := cut_words hne hws 1
  have hends : endsInside (marks false 1 (List.intercalate [' '] ws)) = false := by
    rw [endsInside_eq, map_char_marks (not_mem_words hws (by decide) rfl), closed_words hws]
  set pieces := Text.cut Mark.isSeparator (marks false 1 (List.intercalate [' '] ws))
  have hpieces : ∀ ms ∈ pieces, ms ≠ [] := by
    rintro ms hms rfl
    have hmem : [] ∈ ws := by
      rw [← hcut]
      exact List.mem_map.mpr ⟨[], hms, rfl⟩
    exact (hws _ hmem).ne_nil rfl
  refine ⟨pieces.filterMap tokenOf?, ?_, ?_⟩
  · simp only [tokenize, hends, Bool.false_eq_true, if_false, pieces]
  · calc (pieces.filterMap tokenOf?).map Token.text
        = pieces.map fun ms => String.ofList (ms.map Mark.char) := filterMap_tokenOf? hpieces
      _ = (pieces.map (List.map Mark.char)).map String.ofList := by rw [List.map_map]; rfl
      _ = ws.map String.ofList := by rw [hcut]

/-! ## Statements -/

/-- A name after a colon is a label. -/
theorem labelOf?_colon (name : String) : labelOf? (":" ++ name) = some name := by
  simp [labelOf?, String.toList_append]

/-- A word that starts with another character than a colon is no label. -/
theorem labelOf?_eq_none {token : String} {c : Char} (hc : c ≠ ':')
    (htoken : token.toList.head? = some c) : labelOf? token = none := by
  unfold labelOf?
  split
  · rename_i hcons
    rw [hcons] at htoken
    exact absurd (Option.some.inj htoken).symm hc
  · rfl

/-- Mnemonics are words, and none is a label. -/
theorem isWord_mnemonic (op : Opcode) :
    IsWord op.mnemonic.toList ∧ labelOf? op.mnemonic = none := by
  cases op with
  | binary op | unary op | branch op =>
    cases op <;> exact ⟨isWord_of_all (by decide) (by decide), by decide⟩
  | _ => exact ⟨isWord_of_all (by decide) (by decide), by decide⟩

/-- A line of a mnemonic and other words is an instruction with these words as its operands. -/
theorem readLine_instruction (number : Nat) (op : Opcode) {ws : List String}
    (hws : ∀ w ∈ ws, IsWord w.toList) :
    ∃ column tokens,
      readLine number (" ".intercalate (op.mnemonic :: ws)).toList =
        .ok (.instruction op column tokens) ∧
      tokens.map Token.text = ws := by
  rcases isWord_mnemonic op with ⟨hmnemonic, hlabel⟩
  have hall : ∀ w ∈ (op.mnemonic :: ws).map String.toList, IsWord w := by
    simpa using ⟨hmnemonic, hws⟩
  rcases tokenize_words (by simp) hall with ⟨tokens, htokens, htexts⟩
  have htexts : tokens.map Token.text = op.mnemonic :: ws := by simpa using htexts
  rcases List.map_eq_cons_iff.mp htexts with ⟨first, rest, rfl, hfirst, hrest⟩
  have htokens : tokenize (" ".intercalate (op.mnemonic :: ws)).toList = .ok (first :: rest) := by
    rw [String.toList_intercalate]
    exact htokens
  refine ⟨first.column, rest, ?_, hrest⟩
  simp only [readLine, htokens, hfirst, hlabel, Opcode.ofMnemonic?_mnemonic]

/-- A line of a name after a colon is a label. -/
theorem readLine_label (number : Nat) {name : String} (hne : name ≠ "")
    (hname : IsWord (":" ++ name).toList) :
    ∃ column, readLine number (":" ++ name).toList = .ok (.label name column) := by
  have hall : ∀ w ∈ [(":" ++ name).toList], IsWord w := by simpa using hname
  rcases tokenize_words (by simp) hall with ⟨tokens, htokens, htexts⟩
  rw [List.intercalate_singleton] at htokens
  have htexts : tokens.map Token.text = [":" ++ name] := by simpa using htexts
  rcases List.map_eq_cons_iff.mp htexts with ⟨first, rest, rfl, hfirst, hrest⟩
  rw [List.map_eq_nil_iff.mp hrest] at htokens
  refine ⟨first.column, ?_⟩
  simp only [readLine, htokens, hfirst, labelOf?_colon, hne]
  simp

end StackMachine.Assembly
