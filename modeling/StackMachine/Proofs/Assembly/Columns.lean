import StackMachine.Proofs.Assembly.Words

/-!
# Columns

The column of a token counts the bytes of the line up to its first one, and so does the column
of a bracket that is not closed.  Both are said here on the characters of the line: the line is
what stands before the column, the text at it, and what comes after.  Characters of several
bytes may occur anywhere.

Main definitions:

- `StandsAt`, where a text stands on a line;
- `IsLastOpening`, where the last opening bracket of a line stands.

Main results:

- Theorem `standsAt_of_mem_tokens`: a token stands on its line at its column.
- Theorem `isLastOpening_of_tokenize`: a line that cannot be read is reported at its last
  opening bracket.
-/

namespace StackMachine.Assembly

/-- The text stands on the line from a column on.  Columns count bytes from one. -/
def StandsAt (line : List Char) (column : Nat) (text : List Char) : Prop :=
  ∃ before after, line = before ++ text ++ after ∧
    column = (String.ofList before).utf8ByteSize + 1

/-- The last opening bracket of the line stands at the column. -/
def IsLastOpening (line : List Char) (column : Nat) : Prop :=
  ∃ before after, line = before ++ '[' :: after ∧ '[' ∉ after ∧
    column = (String.ofList before).utf8ByteSize + 1

/-! ## Marks -/

/-- The column of a mark counts the bytes of the characters marked before it. -/
theorem column_of_marks {line : List Char} {inside : Bool} {column : Nat} {before after : List Mark}
    {m : Mark} (hmarks : marks inside column line = before ++ m :: after) :
    m.column = column + (String.ofList (before.map Mark.char)).utf8ByteSize := by
  induction line generalizing inside column before with
  | nil => simp [marks] at hmarks
  | cons c line ih =>
    by_cases hcomment : c = '#' ∧ inside = false
    · rw [marks, if_pos hcomment] at hmarks
      simp at hmarks
    · rw [marks, if_neg hcomment] at hmarks
      cases before with
      | nil =>
        rw [← (List.cons.inj hmarks).1]
        simp
      | cons b before =>
        obtain ⟨rfl, hrest⟩ := List.cons.inj hmarks
        rw [ih hrest, List.map_cons, String.ofList_cons, String.utf8ByteSize_append,
          String.utf8ByteSize_singleton]
        exact Nat.add_assoc _ _ _

/-- The characters that are marked start the line. -/
theorem exists_rest_of_marks (line : List Char) (inside : Bool) (column : Nat) :
    ∃ rest, line = (marks inside column line).map Mark.char ++ rest := by
  refine ⟨line.drop (marks inside column line).length, ?_⟩
  rw [map_char_eq_take, List.take_append_drop]

/-- No comment ends a line inside of brackets, so all of its characters are marked. -/
theorem map_char_of_endsInside {line : List Char} {inside : Bool} {column : Nat}
    (hinside : ((marks inside column line).map Mark.char).foldl insideAfter inside = true) :
    (marks inside column line).map Mark.char = line := by
  induction line generalizing inside column with
  | nil => rfl
  | cons c line ih =>
    by_cases hcomment : c = '#' ∧ inside = false
    · rw [marks, if_pos hcomment] at hinside
      rw [hcomment.2] at hinside
      cases hinside
    · rw [marks, if_neg hcomment, List.map_cons] at hinside ⊢
      rw [ih hinside]

/-- The part of the line from a mark on stands at the column of the mark. -/
theorem line_of_marks {line : List Char} {before after : List Mark} {m : Mark}
    (hmarks : marks false 1 line = before ++ m :: after) :
    ∃ rest, line = before.map Mark.char ++ m.char :: after.map Mark.char ++ rest ∧
      m.column = (String.ofList (before.map Mark.char)).utf8ByteSize + 1 := by
  obtain ⟨rest, hline⟩ := exists_rest_of_marks line false 1
  refine ⟨rest, ?_, ?_⟩
  · rw [hmarks, List.map_append, List.map_cons] at hline
    exact hline
  · rw [column_of_marks hmarks, Nat.add_comm]

/-! ## Tokens -/

/-- A token stands on its line at its column. -/
theorem standsAt_of_mem_tokens {line : List Char} {tokens : List Token} {token : Token}
    (htokens : tokenize line = .ok tokens) (hmem : token ∈ tokens) :
    token.text ≠ "" ∧ StandsAt line token.column token.text.toList := by
  unfold tokenize at htokens
  dsimp only at htokens
  split at htokens
  · cases htokens
  · cases htokens
    obtain ⟨piece, hpiece, htoken⟩ := List.mem_filterMap.mp hmem
    obtain ⟨before, after, hsplit⟩ := Text.infix_of_mem_cut hpiece
    cases piece with
    | nil => cases htoken
    | cons m ms =>
      cases htoken
      have hmarks : marks false 1 line = before ++ m :: (ms ++ after) := by
        rw [← hsplit, List.append_assoc, List.cons_append]
      obtain ⟨rest, hline, hcolumn⟩ := line_of_marks hmarks
      refine ⟨by simp, before.map Mark.char, after.map Mark.char ++ rest, ?_, hcolumn⟩
      rw [hline, String.toList_ofList]
      simp

/-- The last element of a list with some property, and what comes before and after it. -/
theorem split_of_getLast?_filter {α : Type} {p : α → Bool} {as : List α} {a : α}
    (ha : (as.filter p).getLast? = some a) :
    p a = true ∧ ∃ before after, as = before ++ a :: after ∧ ∀ b ∈ after, p b = false := by
  rw [List.getLast?_filter, List.find?_eq_some_iff_append] at ha
  obtain ⟨hp, later, earlier, hreverse, hlater⟩ := ha
  refine ⟨hp, earlier.reverse, later.reverse, ?_, ?_⟩
  · rw [← List.reverse_reverse as, hreverse]
    simp
  · intro b hb
    simpa using hlater b (List.mem_reverse.mp hb)

/-- A line that cannot be read is reported at its last opening bracket. -/
theorem isLastOpening_of_tokenize {line : List Char} {column : Nat}
    (herror : tokenize line = .error column) : IsLastOpening line column := by
  unfold tokenize at herror
  dsimp only at herror
  split at herror
  · rename_i hends
    rw [endsInside_eq] at hends
    have hwhole := map_char_of_endsInside hends
    unfold lastOpening at herror
    split at herror
    · rename_i m hlast
      cases herror
      obtain ⟨hchar, before, after, hmarks, hafter⟩ := split_of_getLast?_filter hlast
      obtain ⟨_, _, hcolumn⟩ := line_of_marks hmarks
      refine ⟨before.map Mark.char, after.map Mark.char, ?_, ?_, hcolumn⟩
      · rw [hmarks, List.map_append, List.map_cons, of_decide_eq_true hchar] at hwhole
        exact hwhole.symm
      · intro hopening
        obtain ⟨b, hb, hopens⟩ := List.mem_map.mp hopening
        exact absurd hopens (of_decide_eq_false (hafter b hb))
    · -- There is an opening bracket, or the end would not be inside.
      rename_i hnone
      rw [List.getLast?_eq_none_iff, List.filter_eq_nil_iff] at hnone
      have hopening : '[' ∉ (marks false 1 line).map Mark.char := by
        intro hopening
        obtain ⟨m, hm, hopens⟩ := List.mem_map.mp hopening
        exact hnone m hm (decide_eq_true hopens)
      rw [foldl_insideAfter_of_notMem hopening] at hends
      cases hends
  · cases herror

end StackMachine.Assembly
