import Mathlib.Logic.ExistsUnique
import StackMachine.Proofs.Assembly.Columns

/-!
# Runs

Where the tokens of a line stand can be told from the places of its characters alone.  A place
is inside if the last bracket before it opens.  The line is scanned up to the first comment mark
that is not inside.  The tokens are the longest runs of the scanned part that no separator
interrupts, and a separator is one only if it is not inside.

Main definitions:

- `Inside`, `Separates` and `ScannedTo`, what the characters before a place make of it;
- `IsRun`, the longest runs of places without a separator;
- `columnAt` and `tokenAt`, the column of a place and the token between two places.

Main results:

- Theorem `inside_iff`: whether a place is inside.
- Theorem `mem_tokens_iff`: the tokens are the runs.
- Theorem `tokenize_runs`: what the tokens of a line are, and when it has none.
-/

namespace StackMachine.Assembly

/-! ## Places -/

/-- The last bracket before the place opens. -/
def Inside (cs : List Char) (i : Nat) : Prop :=
  ∃ k < i, cs[k]? = some '[' ∧
    ∀ j, k < j → j < i → cs[j]? ≠ some '[' ∧ cs[j]? ≠ some ']'

/-- The character at the place separates tokens. -/
def Separates (cs : List Char) (i : Nat) : Prop :=
  (cs[i]? = some ',' ∨ cs[i]? = some ' ' ∨ cs[i]? = some '\t' ∨ cs[i]? = some '\r') ∧
    ¬ Inside cs i

/-- The line is scanned up to the place: to its first comment mark that is not inside, or to its
end if there is none. -/
structure ScannedTo (cs : List Char) (n : Nat) : Prop where
  le_length : n ≤ cs.length
  inside : ∀ i < n, cs[i]? = some '#' → Inside cs i
  ends : n = cs.length ∨ cs[n]? = some '#' ∧ ¬ Inside cs n

/-- The places from `start` to before `stop` are a longest run without a separator, among the
places before `n`. -/
structure IsRun (separates : Nat → Prop) (n start stop : Nat) : Prop where
  start_lt : start < stop
  stop_le : stop ≤ n
  plain : ∀ i, start ≤ i → i < stop → ¬ separates i
  left : ∀ i, i + 1 = start → separates i
  right : stop < n → separates stop

/-- The column of a place.  Columns count bytes from one. -/
def columnAt (cs : List Char) (i : Nat) : Nat := (String.ofList (cs.take i)).utf8ByteSize + 1

/-- What is written from `start` to before `stop`, as a token. -/
def tokenAt (cs : List Char) (start stop : Nat) : Token :=
  ⟨String.ofList ((cs.take stop).drop start), columnAt cs start⟩

/-- The scanned part of a line ends at one place only. -/
theorem ScannedTo.unique {cs : List Char} {n m : Nat} (hn : ScannedTo cs n)
    (hm : ScannedTo cs m) : m = n := by
  have hle {a b : Nat} (ha : ScannedTo cs a) (hb : ScannedTo cs b) : a ≤ b := by
    apply Nat.le_of_not_lt
    intro hlt
    rcases hb.ends with hend | ⟨hmark, hinside⟩
    · have hlength := ha.le_length
      omega
    · exact hinside (ha.inside b (by omega) hmark)
  exact Nat.le_antisymm (hle hm hn) (hle hn hm)

/-! ## Runs -/

section Runs

variable {α : Type} {isSeparator : α → Bool} {separates : Nat → Prop} {as : List α}

/-- Two runs that share a place are the same. -/
theorem IsRun.unique {n start stop start' stop' i : Nat}
    (h : IsRun separates n start stop) (h' : IsRun separates n start' stop')
    (hstart : start ≤ i) (hstop : i < stop) (hstart' : start' ≤ i) (hstop' : i < stop') :
    start = start' ∧ stop = stop' := by
  -- A run that started later would have a separator right before it, inside of the other one.
  have hleft {a b c d : Nat} (hab : IsRun separates n a b) (hcd : IsRun separates n c d)
      (hai : i < b) (hci : c ≤ i) : c ≤ a := by
    apply Nat.le_of_not_lt
    intro hlt
    exact hab.plain (c - 1) (by omega) (by omega) (hcd.left (c - 1) (by omega))
  have hright {a b c d : Nat} (hab : IsRun separates n a b) (hcd : IsRun separates n c d)
      (hai : a ≤ i) (hci : i < d) : b ≤ d := by
    apply Nat.le_of_not_lt
    intro hlt
    have hle := hab.stop_le
    exact hab.plain d (by omega) (by omega) (hcd.right (by omega))
  exact ⟨Nat.le_antisymm (hleft h' h hstop' hstart) (hleft h h' hstop hstart'),
    Nat.le_antisymm (hright h h' hstart hstop') (hright h' h hstart' hstop)⟩

/-- The elements before a place, divided at an earlier one. -/
theorem take_eq_append (as : List α) {i j : Nat} (hij : i ≤ j) :
    as.take j = as.take i ++ (as.take j).drop i := by
  have hdivided := (List.take_append_drop i (as.take j)).symm
  rwa [List.take_take, Nat.min_eq_left hij] at hdivided

variable (hseparates : ∀ i a, as[i]? = some a → (isSeparator a = true ↔ separates i))

include hseparates

/-- A piece is a run. -/
theorem isRun_of_mem_cut {piece : List α} (hne : piece ≠ [])
    (hpiece : piece ∈ Text.cut isSeparator as) :
    ∃ start stop, IsRun separates as.length start stop ∧ piece = (as.take stop).drop start := by
  obtain ⟨hplain, before, after, rfl, hbefore, hafter⟩ := Text.mem_cut_iff.mp hpiece
  have hpos := List.length_pos_iff.mpr hne
  refine ⟨before.length, before.length + piece.length, ⟨by omega, by simp, ?_, ?_, ?_⟩, ?_⟩
  · intro i hstart hstop hsep
    have hi : i - before.length < piece.length := by omega
    have hplace : (before ++ piece ++ after)[i]? = some piece[i - before.length] := by
      rw [List.append_assoc, List.getElem?_append_right hstart, List.getElem?_append_left hi,
        List.getElem?_eq_getElem hi]
    have hfalse := hplain _ (List.getElem_mem hi)
    rw [(hseparates i _ hplace).mpr hsep] at hfalse
    cases hfalse
  · intro i hi
    have hlast : before[i]? = before.getLast? := by
      rw [List.getLast?_eq_getElem?, ← hi, Nat.add_sub_cancel]
    have hplace := List.getElem?_eq_getElem (show i < before.length by omega)
    refine (hseparates i before[i] ?_).mp (hbefore _ (hlast ▸ hplace))
    rw [List.append_assoc, List.getElem?_append_left (by omega), hplace]
  · intro hlt
    rw [← List.length_append] at hlt ⊢
    have hfirst : (before ++ piece ++ after)[(before ++ piece).length]? = after.head? := by
      rw [List.getElem?_append_right (Nat.le_refl _), Nat.sub_self, List.head?_eq_getElem?]
    have hplace := List.getElem?_eq_getElem hlt
    exact (hseparates _ _ hplace).mp (hafter _ (hfirst ▸ hplace))
  · rw [← List.length_append, List.take_left, List.drop_left]

/-- A run is a piece. -/
theorem mem_cut_of_isRun {start stop : Nat} (hrun : IsRun separates as.length start stop) :
    (as.take stop).drop start ∈ Text.cut isSeparator as := by
  have hlt := hrun.start_lt
  have hle := hrun.stop_le
  refine Text.mem_cut_iff.mpr ⟨?_, as.take start, as.drop stop, ?_, ?_, ?_⟩
  · intro a ha
    obtain ⟨k, hk⟩ := List.mem_iff_getElem?.mp ha
    rw [List.getElem?_drop, List.getElem?_take] at hk
    split at hk
    · rename_i hstop
      rw [← Bool.not_eq_true, hseparates _ _ hk]
      exact hrun.plain _ (by omega) hstop
    · cases hk
  · rw [← take_eq_append as (Nat.le_of_lt hlt), List.take_append_drop]
  · intro a ha
    rw [Option.mem_def, List.getLast?_eq_getElem?, List.length_take_of_le (by omega),
      List.getElem?_take] at ha
    split at ha
    · exact (hseparates _ _ ha).mpr (hrun.left _ (by omega))
    · cases ha
  · intro a ha
    rw [Option.mem_def, List.head?_drop] at ha
    have hplace := (List.getElem?_eq_some_iff.mp ha).1
    exact (hseparates _ _ ha).mpr (hrun.right hplace)

end Runs

/-! ## Columns of places -/

/-- The column of a later place counts the bytes in between. -/
theorem columnAt_add (cs : List Char) {i j : Nat} (hij : i ≤ j) :
    columnAt cs i + (String.ofList ((cs.take j).drop i)).utf8ByteSize = columnAt cs j := by
  have hbytes := congrArg (fun part => (String.ofList part).utf8ByteSize) (take_eq_append cs hij)
  rw [String.ofList_append, String.utf8ByteSize_append] at hbytes
  unfold columnAt
  omega

/-- Columns grow along a line. -/
theorem columnAt_le (cs : List Char) {i j : Nat} (hij : i ≤ j) :
    columnAt cs i ≤ columnAt cs j := by
  have hadd := columnAt_add cs hij
  omega

/-- The columns of the places of a line increase. -/
theorem columnAt_lt {cs : List Char} {i j : Nat} (hi : i < cs.length) (hij : i < j) :
    columnAt cs i < columnAt cs j := by
  have hadd := columnAt_add cs (Nat.le_of_lt hij)
  have hpos : (String.ofList ((cs.take j).drop i)).utf8ByteSize ≠ 0 := by
    rw [Ne, String.utf8ByteSize_eq_zero_iff, String.ofList_eq_empty_iff, List.drop_eq_nil_iff,
      List.length_take]
    omega
  omega

/-! ## Brackets -/

/-- No bracket is open at the start of a line. -/
theorem not_inside_zero (cs : List Char) : ¬ Inside cs 0 := by
  rintro ⟨k, hk, _⟩
  exact Nat.not_lt_zero k hk

/-- A bracket decides about the place after it; another character leaves it as it was. -/
theorem inside_succ_iff {cs : List Char} {i : Nat} {c : Char} (hc : cs[i]? = some c) :
    Inside cs (i + 1) ↔ c = '[' ∨ c ≠ ']' ∧ Inside cs i := by
  constructor
  · rintro ⟨k, hk, hopens, hlater⟩
    by_cases hki : k = i
    · subst hki
      rw [hc, Option.some_inj] at hopens
      exact Or.inl hopens
    · have hlast := hlater i (by omega) (by omega)
      rw [hc, Ne, Ne, Option.some_inj, Option.some_inj] at hlast
      refine Or.inr ⟨hlast.2, k, by omega, hopens, ?_⟩
      intro j hkj hji
      exact hlater j hkj (by omega)
  · rintro (rfl | ⟨hcloses, k, hk, hopens, hlater⟩)
    · exact ⟨i, by omega, hc, by omega⟩
    · by_cases hopening : c = '['
      · subst hopening
        exact ⟨i, by omega, hc, by omega⟩
      · refine ⟨k, by omega, hopens, ?_⟩
        intro j hkj hji
        by_cases hj : j = i
        · subst hj
          rw [hc, Ne, Ne, Option.some_inj, Option.some_inj]
          exact ⟨hopening, hcloses⟩
        · exact hlater j hkj (by omega)

/-- A bracket is open after a character that opens one, or after one that does not close it. -/
theorem insideAfter_eq_true_iff {inside : Bool} {c : Char} :
    insideAfter inside c = true ↔ c = '[' ∨ c ≠ ']' ∧ inside = true := by
  unfold insideAfter
  by_cases hopens : c = '['
  · simp [hopens]
  · by_cases hcloses : c = ']'
    · simp [hcloses]
    · simp [hopens, hcloses]

/-- Whether a place is inside is what the scan of the characters before it finds. -/
theorem inside_iff {cs : List Char} {i : Nat} (hi : i ≤ cs.length) :
    Inside cs i ↔ (cs.take i).foldl insideAfter false = true := by
  induction i with
  | zero => simp [not_inside_zero]
  | succ i ih =>
    have hc : cs[i]? = some cs[i] := List.getElem?_eq_getElem hi
    rw [inside_succ_iff hc, ih (by omega), List.take_add_one, hc, Option.toList_some,
      List.foldl_append, List.foldl_cons, List.foldl_nil, insideAfter_eq_true_iff]

/-! ## Marks and their places -/

/-- There are at most as many marks as characters. -/
theorem length_marks_le (cs : List Char) (inside : Bool) (column : Nat) :
    (marks inside column cs).length ≤ cs.length := by
  have hchars := congrArg List.length (map_char_eq_take cs inside column)
  rw [List.length_map, List.length_take] at hchars
  omega

/-- A mark knows whether the scan of the characters before it is inside, and no comment mark is
marked that is not. -/
theorem inside_of_marks {cs : List Char} {inside : Bool} {column : Nat} {before after : List Mark}
    {m : Mark} (hmarks : marks inside column cs = before ++ m :: after) :
    m.inside = (before.map Mark.char).foldl insideAfter inside ∧
      (m.char = '#' → m.inside = true) := by
  induction cs generalizing inside column before with
  | nil => simp [marks] at hmarks
  | cons c cs ih =>
    by_cases hcomment : c = '#' ∧ inside = false
    · rw [marks, if_pos hcomment] at hmarks
      simp at hmarks
    · rw [marks, if_neg hcomment] at hmarks
      cases before with
      | nil =>
        rw [← (List.cons.inj hmarks).1]
        refine ⟨rfl, fun hhash => ?_⟩
        rw [not_and, Bool.not_eq_false] at hcomment
        exact hcomment hhash
      | cons b before =>
        obtain ⟨rfl, hrest⟩ := List.cons.inj hmarks
        rw [List.map_cons, List.foldl_cons]
        exact ih hrest

/-- What is marked at a place. -/
theorem mark_at {cs : List Char} {i : Nat} {m : Mark} (hm : (marks false 1 cs)[i]? = some m) :
    cs[i]? = some m.char ∧ m.column = columnAt cs i ∧ (m.inside = true ↔ Inside cs i) ∧
      (m.char = '#' → m.inside = true) := by
  have hchars := map_char_eq_take cs false 1
  have hlength := length_marks_le cs false 1
  generalize hms : marks false 1 cs = ms at hm hchars hlength
  obtain ⟨hi, rfl⟩ := List.getElem?_eq_some_iff.mp hm
  have hmarks : marks false 1 cs = ms.take i ++ ms[i] :: ms.drop (i + 1) := by
    rw [List.getElem_cons_drop, List.take_append_drop, hms]
  have hbefore : (ms.take i).map Mark.char = cs.take i := by
    rw [List.map_take, hchars, List.take_take, Nat.min_eq_left (Nat.le_of_lt hi)]
  have hchar : cs[i]? = some ms[i].char := by
    rw [← List.getElem?_take_of_lt hi, ← hchars, List.getElem?_map, hm]
    rfl
  obtain ⟨_, _, hcolumn⟩ := line_of_marks hmarks
  obtain ⟨hinside, hhash⟩ := inside_of_marks hmarks
  rw [hbefore] at hcolumn hinside
  refine ⟨hchar, hcolumn, ?_, hhash⟩
  rw [inside_iff (by omega), hinside]

/-- The marks end with the line, or before a comment mark that is not inside. -/
theorem marks_end (cs : List Char) (inside : Bool) (column : Nat) :
    (marks inside column cs).length = cs.length ∨
      cs[(marks inside column cs).length]? = some '#' ∧
        ((marks inside column cs).map Mark.char).foldl insideAfter inside = false := by
  induction cs generalizing inside column with
  | nil => exact Or.inl rfl
  | cons c cs ih =>
    by_cases hcomment : c = '#' ∧ inside = false
    · rw [marks, if_pos hcomment]
      exact Or.inr ⟨congrArg some hcomment.1, hcomment.2⟩
    · rw [marks, if_neg hcomment]
      rcases ih (insideAfter inside c) (column + c.utf8Size) with hend | ⟨hmark, hscan⟩
      · exact Or.inl (congrArg Nat.succ hend)
      · exact Or.inr ⟨hmark, hscan⟩

/-- The marks are those of the scanned part. -/
theorem scannedTo_marks (cs : List Char) : ScannedTo cs (marks false 1 cs).length := by
  have hle := length_marks_le cs false 1
  refine ⟨hle, ?_, ?_⟩
  · intro i hi hhash
    have hm := List.getElem?_eq_getElem hi
    obtain ⟨hchar, _, hinside, hcomment⟩ := mark_at hm
    rw [hchar, Option.some_inj] at hhash
    exact hinside.mp (hcomment hhash)
  · rcases marks_end cs false 1 with hend | ⟨hmark, hscan⟩
    · exact Or.inl hend
    · refine Or.inr ⟨hmark, ?_⟩
      rw [inside_iff hle, ← map_char_eq_take, hscan]
      exact Bool.false_ne_true

/-- A mark separates tokens exactly if the character at its place does. -/
theorem isSeparator_iff {cs : List Char} {i : Nat} {m : Mark}
    (hm : (marks false 1 cs)[i]? = some m) : m.isSeparator = true ↔ Separates cs i := by
  obtain ⟨hchar, _, hinside, _⟩ := mark_at hm
  unfold Mark.isSeparator Separates
  rw [← hinside, hchar]
  simp [and_comm, or_assoc]

/-- The place after the marks is inside if the bracket that was read last opens. -/
theorem endsInside_iff (cs : List Char) :
    endsInside (marks false 1 cs) = true ↔ Inside cs (marks false 1 cs).length := by
  rw [endsInside_eq, map_char_eq_take, inside_iff (length_marks_le cs false 1)]

/-! ## Tokens and runs -/

/-- The marks between two places spell the token between them. -/
theorem tokenOf?_slice {cs : List Char} {start stop : Nat} (hlt : start < stop)
    (hle : stop ≤ (marks false 1 cs).length) :
    tokenOf? (((marks false 1 cs).take stop).drop start) = some (tokenAt cs start stop) := by
  have htext : (((marks false 1 cs).take stop).drop start).map Mark.char =
      (cs.take stop).drop start := by
    rw [List.map_drop, List.map_take, map_char_eq_take, List.take_take, Nat.min_eq_left hle]
  have hfirst : (((marks false 1 cs).take stop).drop start)[0]? =
      (marks false 1 cs)[start]? := by
    rw [List.getElem?_drop, Nat.add_zero, List.getElem?_take_of_lt hlt]
  cases hpiece : ((marks false 1 cs).take stop).drop start with
  | nil =>
    rw [List.drop_eq_nil_iff, List.length_take] at hpiece
    omega
  | cons m ms =>
    rw [hpiece] at hfirst htext
    obtain ⟨_, hcolumn, _⟩ := mark_at hfirst.symm
    rw [tokenOf?, htext, hcolumn]
    rfl

/-- A line has tokens exactly when no bracket is open where it has been scanned to, and they are the
pieces between its separators. -/
theorem tokenize_eq_ok_iff {cs : List Char} {tokens : List Token} :
    tokenize cs = .ok tokens ↔ ¬ Inside cs (marks false 1 cs).length ∧
      (Text.cut Mark.isSeparator (marks false 1 cs)).filterMap tokenOf? = tokens := by
  rw [← endsInside_iff]
  unfold tokenize
  by_cases hinside : endsInside (marks false 1 cs) = true
  · simp [hinside]
  · simp [hinside]

/-- The tokens are the runs of the scanned part. -/
theorem mem_tokens_iff {cs : List Char} {tokens : List Token}
    (htokens : tokenize cs = .ok tokens) (token : Token) :
    token ∈ tokens ↔ ∃ start stop,
      IsRun (Separates cs) (marks false 1 cs).length start stop ∧
        token = tokenAt cs start stop := by
  obtain ⟨_, rfl⟩ := tokenize_eq_ok_iff.mp htokens
  rw [List.mem_filterMap]
  constructor
  · rintro ⟨piece, hpiece, htoken⟩
    have hne : piece ≠ [] := by
      rintro rfl
      cases htoken
    obtain ⟨start, stop, hrun, rfl⟩ :=
      isRun_of_mem_cut (fun i m hm => isSeparator_iff hm) hne hpiece
    rw [tokenOf?_slice hrun.start_lt hrun.stop_le, Option.some_inj] at htoken
    exact ⟨start, stop, hrun, htoken.symm⟩
  · rintro ⟨start, stop, hrun, rfl⟩
    exact ⟨_, mem_cut_of_isRun (fun i m hm => isSeparator_iff hm) hrun,
      tokenOf?_slice hrun.start_lt hrun.stop_le⟩

/-- The columns of the marks increase. -/
theorem pairwise_marks (cs : List Char) :
    (marks false 1 cs).Pairwise fun m m' => m.column < m'.column := by
  rw [List.pairwise_iff_getElem]
  intro i j hi hj hij
  have hle := length_marks_le cs false 1
  obtain ⟨_, hcolumn, _⟩ := mark_at (List.getElem?_eq_getElem hi)
  obtain ⟨_, hcolumn', _⟩ := mark_at (List.getElem?_eq_getElem hj)
  rw [hcolumn, hcolumn']
  exact columnAt_lt (by omega) hij

/-- The columns of the tokens increase. -/
theorem pairwise_tokens {cs : List Char} {tokens : List Token}
    (htokens : tokenize cs = .ok tokens) :
    tokens.Pairwise fun token token' => token.column < token'.column := by
  obtain ⟨_, rfl⟩ := tokenize_eq_ok_iff.mp htokens
  have hpieces : ((Text.cut Mark.isSeparator (marks false 1 cs)).flatten).Pairwise
      fun m m' => m.column < m'.column := by
    rw [Text.flatten_cut]
    exact (pairwise_marks cs).filter _
  have hfirst {piece : List Mark} {token : Token} (htoken : tokenOf? piece = some token) :
      ∃ m ∈ piece, m.column = token.column := by
    cases piece with
    | nil => cases htoken
    | cons m ms =>
      cases htoken
      exact ⟨m, List.mem_cons_self, rfl⟩
  rw [List.pairwise_filterMap]
  refine (List.pairwise_flatten.mp hpieces).2.imp ?_
  intro piece piece' hlt token htoken token' htoken'
  obtain ⟨m, hm, hcolumn⟩ := hfirst htoken
  obtain ⟨m', hm', hcolumn'⟩ := hfirst htoken'
  rw [← hcolumn, ← hcolumn']
  exact hlt m hm m' hm'

/-- The character at the place is one of those of the token. -/
def Token.Covers (token : Token) (cs : List Char) (i : Nat) : Prop :=
  token.column ≤ columnAt cs i ∧ columnAt cs i < token.column + token.text.utf8ByteSize

/-- The token between two places has the characters between them. -/
theorem covers_tokenAt_iff {cs : List Char} {start stop i : Nat} (hle : start ≤ stop)
    (hi : i < cs.length) :
    (tokenAt cs start stop).Covers cs i ↔ start ≤ i ∧ i < stop := by
  have hbytes := columnAt_add cs hle
  unfold Token.Covers tokenAt
  dsimp only
  rw [hbytes]
  constructor
  · rintro ⟨hstart, hstop⟩
    constructor
    · apply Nat.le_of_not_lt
      intro hbefore
      exact absurd (columnAt_lt hi hbefore) (Nat.not_lt.mpr hstart)
    · apply Nat.lt_of_not_le
      intro hafter
      exact absurd (columnAt_le cs hafter) (Nat.not_le.mpr hstop)
  · rintro ⟨hstart, hstop⟩
    exact ⟨columnAt_le cs hstart, columnAt_lt hi hstop⟩

/-- A scanned character that does not separate is one of those of a run. -/
theorem exists_isRun_covers {cs : List Char} {i : Nat} (hi : i < (marks false 1 cs).length)
    (hplain : ¬ Separates cs i) :
    ∃ start stop, IsRun (Separates cs) (marks false 1 cs).length start stop ∧
      (tokenAt cs start stop).Covers cs i := by
  have hscanned := length_marks_le cs false 1
  have hm := List.getElem?_eq_getElem hi
  generalize (marks false 1 cs)[i] = m at hm
  obtain ⟨_, hcolumn, _⟩ := mark_at hm
  have hmem : m ∈ (Text.cut Mark.isSeparator (marks false 1 cs)).flatten := by
    rw [Text.flatten_cut, List.mem_filter, Bool.not_eq_true', ← Bool.not_eq_true,
      isSeparator_iff hm]
    exact ⟨List.mem_of_getElem? hm, hplain⟩
  obtain ⟨piece, hpiece, hmem⟩ := List.mem_flatten.mp hmem
  obtain ⟨start, stop, hrun, rfl⟩ := isRun_of_mem_cut (fun j m hm => isSeparator_iff hm)
    (List.ne_nil_of_mem hmem) hpiece
  -- The mark is found at some place of the run; its column shows that it is the given one.
  obtain ⟨k, hk⟩ := List.mem_iff_getElem?.mp hmem
  rw [List.getElem?_drop, List.getElem?_take] at hk
  split at hk
  · rename_i hstop
    obtain ⟨_, hcolumn', _⟩ := mark_at hk
    have hlt := hrun.start_lt
    have hle := hrun.stop_le
    have hcovers : (tokenAt cs start stop).Covers cs (start + k) :=
      (covers_tokenAt_iff (by omega) (by omega)).mpr ⟨by omega, hstop⟩
    unfold Token.Covers at hcovers
    rw [← hcolumn', hcolumn] at hcovers
    exact ⟨start, stop, hrun, hcovers⟩
  · cases hk

/-- A character that is scanned and does not separate belongs to exactly one token. -/
theorem existsUnique_covers {cs : List Char} {tokens : List Token} {i : Nat}
    (htokens : tokenize cs = .ok tokens) (hi : i < (marks false 1 cs).length)
    (hplain : ¬ Separates cs i) : ∃! token, token ∈ tokens ∧ token.Covers cs i := by
  have hscanned := length_marks_le cs false 1
  have hplaces {start stop : Nat}
      (hrun : IsRun (Separates cs) (marks false 1 cs).length start stop)
      (hcovers : (tokenAt cs start stop).Covers cs i) : start ≤ i ∧ i < stop :=
    (covers_tokenAt_iff (Nat.le_of_lt hrun.start_lt) (by omega)).mp hcovers
  obtain ⟨start, stop, hrun, hcovers⟩ := exists_isRun_covers hi hplain
  refine ⟨tokenAt cs start stop, ⟨?_, hcovers⟩, ?_⟩
  · exact (mem_tokens_iff htokens _).mpr ⟨start, stop, hrun, rfl⟩
  · rintro token' ⟨hmem, hcovers'⟩
    obtain ⟨start', stop', hrun', rfl⟩ := (mem_tokens_iff htokens _).mp hmem
    obtain ⟨hstart, hstop⟩ := hplaces hrun hcovers
    obtain ⟨hstart', hstop'⟩ := hplaces hrun' hcovers'
    obtain ⟨rfl, rfl⟩ := hrun.unique hrun' hstart hstop hstart' hstop'
    rfl

/-- A line is scanned up to one place.  It has tokens exactly if this place is not inside.  These
are its longest runs without a separator up to there, each with its text and its column, from
left to right, and each character that does not separate belongs to exactly one of them.  A line
without tokens is reported at its last opening bracket. -/
theorem tokenize_runs (cs : List Char) :
    ∃ n, (∀ m, ScannedTo cs m ↔ m = n) ∧
      ((∃ tokens, tokenize cs = .ok tokens) ↔ ¬ Inside cs n) ∧
      (∀ tokens, tokenize cs = .ok tokens →
        (∀ token, token ∈ tokens ↔
          ∃ start stop, IsRun (Separates cs) n start stop ∧ token = tokenAt cs start stop) ∧
        tokens.Pairwise (fun token token' => token.column < token'.column) ∧
        ∀ i < n, ¬ Separates cs i → ∃! token, token ∈ tokens ∧ token.Covers cs i) ∧
      ∀ column, tokenize cs = .error column → IsLastOpening cs column := by
  refine ⟨(marks false 1 cs).length, ?_, ?_, ?_, fun column => isLastOpening_of_tokenize⟩
  · intro m
    refine ⟨fun hm => (scannedTo_marks cs).unique hm, ?_⟩
    rintro rfl
    exact scannedTo_marks cs
  · simp [tokenize_eq_ok_iff]
  · intro tokens htokens
    exact ⟨mem_tokens_iff htokens, pairwise_tokens htokens,
      fun i hi hplain => existsUnique_covers htokens hi hplain⟩

end StackMachine.Assembly
