import StackMachine.Text.Split

/-!
# Cutting written texts

A text that was put together from pieces and separators is cut into the same pieces, as long
as no piece holds a separator.  In particular the lines of a text of whole lines are those
lines.

Main results:

- Theorem `cut_append_separator`: a list is cut at each of its separators.
- Theorem `mem_cut_iff`: the pieces are the longest parts without separators.
- Theorem `flatten_cut`: the pieces hold all but the separators.
- Theorem `cut_intercalate`: pieces with a separator between any two are read back.
- Theorem `weave_cut`: pieces and separators together are the text.
- Theorem `cut_weave`: pieces between any separators are read back.
- Theorem `words_append`: the words of a text are those of its parts.
- Theorem `lines_flatMap`: lines that are written one after the other are read back.
-/

namespace StackMachine.Text

section Cut

variable {α : Type} {isSeparator : α → Bool}

/-- An element that is no separator belongs to the first piece. -/
theorem cut_cons_of_neg {a : α} (ha : isSeparator a = false) {as piece : List α}
    {pieces : List (List α)} (has : cut isSeparator as = piece :: pieces) :
    cut isSeparator (a :: as) = (a :: piece) :: pieces := by
  simp [cut, ha, has]

/-- A list without separators is one piece. -/
theorem cut_of_forall {as : List α} (has : ∀ a ∈ as, isSeparator a = false) :
    cut isSeparator as = [as] := by
  induction as with
  | nil => rfl
  | cons a as ih =>
    rw [List.forall_mem_cons] at has
    exact cut_cons_of_neg has.1 (ih has.2)

theorem cut_ne_nil (as : List α) : cut isSeparator as ≠ [] := by
  cases as with
  | nil => simp [cut]
  | cons a as =>
    unfold cut
    split
    · simp
    · split <;> simp

/-- There is one more piece than there are separators. -/
theorem length_cut (as : List α) :
    (cut isSeparator as).length = (as.filter isSeparator).length + 1 := by
  induction as with
  | nil => rfl
  | cons a as ih =>
    cases ha : isSeparator a with
    | true => simp [cut, ha, ih]
    | false =>
      rcases List.exists_cons_of_ne_nil (cut_ne_nil as) with ⟨piece, pieces, hcut⟩
      rw [cut_cons_of_neg ha hcut, List.filter_cons_of_neg (by simp [ha]), ← ih, hcut]
      rfl

/-- A list is cut at each of its separators. -/
theorem cut_append_separator {a : α} (ha : isSeparator a = true) (as bs : List α) :
    cut isSeparator (as ++ a :: bs) = cut isSeparator as ++ cut isSeparator bs := by
  induction as with
  | nil => simp [cut, ha]
  | cons b as ih =>
    cases hb : isSeparator b with
    | true => simp [cut, hb, ih]
    | false =>
      rcases List.exists_cons_of_ne_nil (cut_ne_nil as) with ⟨piece, pieces, hcut⟩
      rw [hcut, List.cons_append] at ih
      rw [List.cons_append, cut_cons_of_neg hb ih, cut_cons_of_neg hb hcut, List.cons_append]

/-- The first piece ends at the first separator. -/
theorem cut_append_cons {as bs : List α} {b : α} (has : ∀ a ∈ as, isSeparator a = false)
    (hb : isSeparator b = true) :
    cut isSeparator (as ++ b :: bs) = as :: cut isSeparator bs := by
  rw [cut_append_separator hb, cut_of_forall has, List.singleton_append]

/-- After a separator at the end comes an empty piece. -/
theorem cut_concat {a : α} (ha : isSeparator a = true) (as : List α) :
    cut isSeparator (as ++ [a]) = cut isSeparator as ++ [[]] :=
  cut_append_separator ha as []

/-- Pieces without separators are cut apart again. -/
theorem cut_intercalate {a : α} (ha : isSeparator a = true) {pieces : List (List α)}
    (hne : pieces ≠ []) (hpieces : ∀ piece ∈ pieces, ∀ b ∈ piece, isSeparator b = false) :
    cut isSeparator (List.intercalate [a] pieces) = pieces := by
  induction pieces with
  | nil => exact absurd rfl hne
  | cons piece pieces ih =>
    rw [List.forall_mem_cons] at hpieces
    cases pieces with
    | nil => rw [List.intercalate_singleton, cut_of_forall hpieces.1]
    | cons piece' pieces =>
      rw [List.intercalate_cons_cons, List.append_assoc, List.singleton_append,
        cut_append_cons hpieces.1 ha, ih (by simp) hpieces.2]

/-- The pieces are the longest parts of the list without separators: each starts the list or
stands after a separator, and ends the list or stands before one.  No separator is among the
first elements; the induction moves elements to these until it comes to a separator. -/
theorem exists_of_mem_cut (first : List α) {as piece : List α}
    (hfirst : ∀ a ∈ first, isSeparator a = false) (hpiece : piece ∈ cut isSeparator (first ++ as)) :
    (∀ a ∈ piece, isSeparator a = false) ∧
      ∃ before after, first ++ as = before ++ piece ++ after ∧
        (∀ a ∈ before.getLast?, isSeparator a = true) ∧
        ∀ a ∈ after.head?, isSeparator a = true := by
  induction as generalizing first with
  | nil =>
    rw [List.append_nil, cut_of_forall hfirst, List.mem_singleton] at hpiece
    subst hpiece
    exact ⟨hfirst, [], [], by simp⟩
  | cons a as ih =>
    cases ha : isSeparator a with
    | false =>
      rw [← List.singleton_append, ← List.append_assoc] at hpiece ⊢
      refine ih _ ?_ hpiece
      rw [List.forall_mem_append, List.forall_mem_singleton]
      exact ⟨hfirst, ha⟩
    | true =>
      rw [cut_append_cons hfirst ha, List.mem_cons] at hpiece
      rcases hpiece with rfl | hpiece
      · exact ⟨hfirst, [], a :: as, by simp [ha]⟩
      · have hrest := ih [] (List.forall_mem_nil _) hpiece
        rw [List.nil_append] at hrest
        obtain ⟨hplain, before, after, rfl, hbefore, hafter⟩ := hrest
        refine ⟨hplain, first ++ a :: before, after, by simp, ?_, hafter⟩
        intro b hb
        rw [List.getLast?_append, List.getLast?_cons, Option.some_or, Option.mem_some_iff] at hb
        cases hlast : before.getLast? with
        | none =>
          rw [hlast] at hb
          exact hb ▸ ha
        | some c =>
          rw [hlast] at hb
          exact hb ▸ hbefore c hlast

/-- The pieces are the longest parts of the list without separators. -/
theorem mem_cut_iff {as piece : List α} :
    piece ∈ cut isSeparator as ↔
      (∀ a ∈ piece, isSeparator a = false) ∧
        ∃ before after, as = before ++ piece ++ after ∧
          (∀ a ∈ before.getLast?, isSeparator a = true) ∧
          ∀ a ∈ after.head?, isSeparator a = true := by
  refine ⟨exists_of_mem_cut [] (List.forall_mem_nil _), ?_⟩
  rintro ⟨hplain, before, after, rfl, hbefore, hafter⟩
  have hsuffix : piece ∈ cut isSeparator (piece ++ after) := by
    cases after with
    | nil => simp [cut_of_forall hplain]
    | cons b after => simp [cut_append_cons hplain (hafter b rfl)]
  rcases List.eq_nil_or_concat before with rfl | ⟨before, a, rfl⟩
  · exact hsuffix
  · have hcut := cut_append_separator (hbefore a (by simp)) before (piece ++ after)
    rw [List.append_assoc, List.concat_append, hcut]
    exact List.mem_append_right _ hsuffix

/-- The pieces have no separators in them. -/
theorem not_isSeparator_of_mem_cut {as piece : List α} (hpiece : piece ∈ cut isSeparator as) :
    ∀ a ∈ piece, isSeparator a = false :=
  (mem_cut_iff.mp hpiece).1

/-- Each piece is a part of the list. -/
theorem infix_of_mem_cut {as piece : List α} (hpiece : piece ∈ cut isSeparator as) :
    piece <:+: as := by
  obtain ⟨_, before, after, hsplit, _⟩ := mem_cut_iff.mp hpiece
  exact ⟨before, after, hsplit.symm⟩

/-- The pieces hold all of the list but the separators. -/
theorem flatten_cut (as : List α) :
    (cut isSeparator as).flatten = as.filter fun a => !isSeparator a := by
  induction as with
  | nil => rfl
  | cons a as ih =>
    cases ha : isSeparator a with
    | true => simp [cut, ha, ih]
    | false =>
      rcases List.exists_cons_of_ne_nil (cut_ne_nil as) with ⟨piece, pieces, hcut⟩
      rw [hcut] at ih
      rw [cut_cons_of_neg ha hcut, List.filter_cons_of_pos (by simp [ha]), ← ih]
      rfl

end Cut

/-! ## Pieces and separators -/

/-- Pieces with separators between them. -/
def weave {α : Type} : List (List α) → List α → List α
  | [], _ => []
  | piece :: _, [] => piece
  | piece :: pieces, a :: separators => piece ++ a :: weave pieces separators

/-- What is woven comes from the pieces or from the separators. -/
theorem mem_weave {α : Type} {pieces : List (List α)} {separators : List α} {a : α}
    (ha : a ∈ weave pieces separators) : (∃ piece ∈ pieces, a ∈ piece) ∨ a ∈ separators := by
  fun_induction weave pieces separators with
  | case1 => cases ha
  | case2 piece pieces => exact Or.inl ⟨piece, List.mem_cons_self, ha⟩
  | case3 piece pieces b separators ih =>
    rw [List.mem_append, List.mem_cons] at ha
    rcases ha with ha | rfl | ha
    · exact Or.inl ⟨piece, List.mem_cons_self, ha⟩
    · exact Or.inr List.mem_cons_self
    · rcases ih ha with ⟨piece', hpiece', ha⟩ | ha
      · exact Or.inl ⟨piece', List.mem_cons_of_mem _ hpiece', ha⟩
      · exact Or.inr (List.mem_cons_of_mem _ ha)

theorem map_weave {α β : Type} (f : α → β) (pieces : List (List α)) (separators : List α) :
    (weave pieces separators).map f = weave (pieces.map (List.map f)) (separators.map f) := by
  fun_induction weave pieces separators with
  | case1 => rfl
  | case2 piece pieces => rfl
  | case3 piece pieces a separators ih => simp [weave, ih]

/-- The pieces of a list with its separators between them are the list. -/
theorem weave_cut {α : Type} (isSeparator : α → Bool) (as : List α) :
    weave (cut isSeparator as) (as.filter isSeparator) = as := by
  induction as with
  | nil => rfl
  | cons a as ih =>
    cases ha : isSeparator a with
    | true =>
      rw [cut, if_pos ha, List.filter_cons_of_pos ha, weave, ih]
      rfl
    | false =>
      rcases List.exists_cons_of_ne_nil (cut_ne_nil as) with ⟨piece, pieces, hcut⟩
      rw [hcut] at ih
      rw [cut_cons_of_neg ha hcut, List.filter_cons_of_neg (by simp [ha])]
      cases hseparators : as.filter isSeparator with
      | nil =>
        rw [hseparators] at ih
        exact congrArg (a :: ·) ih
      | cons b separators =>
        rw [hseparators] at ih
        exact congrArg (a :: ·) ih

/-- Pieces without separators that stand between separators are cut apart again. -/
theorem cut_weave {α : Type} {isSeparator : α → Bool} {pieces : List (List α)} {separators : List α}
    (hlength : pieces.length = separators.length + 1)
    (hpieces : ∀ piece ∈ pieces, ∀ a ∈ piece, isSeparator a = false)
    (hseparators : ∀ a ∈ separators, isSeparator a = true) :
    cut isSeparator (weave pieces separators) = pieces := by
  fun_induction weave pieces separators with
  | case1 => cases hlength
  | case2 piece pieces =>
    have hnil : pieces = [] := List.length_eq_zero_iff.mp (Nat.succ.inj hlength)
    rw [hnil, cut_of_forall (hpieces piece List.mem_cons_self)]
  | case3 piece pieces a separators ih =>
    rw [List.forall_mem_cons] at hpieces hseparators
    rw [cut_append_cons hpieces.1 hseparators.1,
      ih (Nat.succ.inj hlength) hpieces.2 hseparators.2]

/-! ## Words -/

/-- The words of a text that is divided at a blank are those of its two parts. -/
theorem words_append {c : Char} (hc : isBlank c = true) (as bs : List Char) :
    words (as ++ c :: bs) = words as ++ words bs := by
  rw [words, cut_append_separator hc, List.filter_append]
  rfl

/-- The words between blanks are the pieces between them that are not empty. -/
theorem words_weave {pieces : List (List Char)} {blanks : List Char}
    (hlength : pieces.length = blanks.length + 1)
    (hpieces : ∀ piece ∈ pieces, ∀ c ∈ piece, isBlank c = false)
    (hblanks : ∀ c ∈ blanks, isBlank c = true) :
    words (weave pieces blanks) = pieces.filter fun piece => !piece.isEmpty := by
  rw [words, cut_weave hlength hpieces hblanks]

/-! ## Lines -/

/-- Lines that are written one after the other are cut at their ends. -/
theorem cut_flatMap {ls : List (List Char)} (hls : ∀ l ∈ ls, '\n' ∉ l) :
    cut (· == '\n') (ls.flatMap (· ++ ['\n'])) = ls ++ [[]] := by
  induction ls with
  | nil => rfl
  | cons l ls ih =>
    rw [List.forall_mem_cons] at hls
    have hl : ∀ c ∈ l, (c == '\n') = false := by
      intro c hc
      rw [beq_eq_false_iff_ne]
      rintro rfl
      exact hls.1 hc
    rw [List.flatMap_cons, List.append_assoc, List.singleton_append, cut_append_cons hl rfl,
      ih hls.2, List.cons_append]

/-- Lines that are written one after the other are read back. -/
theorem lines_flatMap {ls : List (List Char)} (hls : ∀ l ∈ ls, '\n' ∉ l ∧ '\r' ∉ l) :
    lines (ls.flatMap (· ++ ['\n'])) = ls := by
  have hcut := cut_flatMap fun l hl => (hls l hl).1
  have hstrip : ∀ l ∈ ls, stripReturn l = l := by
    intro l hl
    rw [stripReturn, if_neg]
    intro hlast
    exact (hls l hl).2 (List.mem_of_getLast? hlast)
  simp only [lines, hcut, List.getLast?_concat, List.dropLast_concat, Option.getD_some,
    List.isEmpty_nil, if_true, List.append_nil]
  rw [List.map_congr_left hstrip, List.map_id']

end StackMachine.Text
