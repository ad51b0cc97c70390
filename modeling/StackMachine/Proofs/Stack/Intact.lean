import StackMachine.Stack.Guarded

/-!
# Intact stacks

A stack whose guards are in order stays so under every operation, none of which then ends
the process, and each does to the elements what it does to a list.  The stored checksum
follows the elements by differences; that it stays the sum of their bytes is the point of
the proofs.

Main results:

- Theorem `GuardedStack.push_of_intact` and its companions for `tryPop`, `set` and
  `truncate`: the operation succeeds, keeps the guards, and changes the list of elements as
  stated.
-/

namespace StackMachine.GuardedStack

variable {α : Type} [Guarded α] {s : GuardedStack α}

/-! ## Sums of bytes -/

/-- The sum of the bytes of a list of elements. -/
def totalOf : List α → UInt64
  | [] => 0
  | a :: as => byteSum a + totalOf as

/-- The sum of two lists is that of both sums. -/
theorem totalOf_append (as bs : List α) : totalOf (as ++ bs) = totalOf as + totalOf bs := by
  induction as with
  | nil => simp [totalOf]
  | cons a as ih => rw [List.cons_append, totalOf, totalOf, ih, UInt64.add_assoc]

/-- Replacing an element exchanges its bytes. -/
theorem totalOf_set {as : List α} {i : Nat} (hi : i < as.length) (a : α) :
    totalOf (as.set i a) = totalOf as - byteSum as[i] + byteSum a := by
  have hold : totalOf as =
      totalOf (as.take i) + (byteSum as[i] + totalOf (as.drop (i + 1))) := by
    rw [← totalOf, ← totalOf_append, ← List.drop_eq_getElem_cons hi, List.take_append_drop]
  rw [List.set_eq_take_append_cons_drop, if_pos hi, totalOf_append, totalOf, hold]
  grind

/-- The sum that is computed for an array is that of the list of its elements. -/
theorem sumOf_eq (items : Array α) : sumOf items = totalOf items.toList := by
  have hfold (as : List α) (start : UInt64) :
      as.foldl (fun sum a => sum + byteSum a) start = start + totalOf as := by
    induction as generalizing start with
    | nil => simp [totalOf]
    | cons a as ih => rw [List.foldl_cons, ih, totalOf, UInt64.add_assoc]
  rw [sumOf, ← Array.foldl_toList, hfold, UInt64.zero_add]

/-! ## Guards -/

/-- All guards of the stack are in order. -/
def Intact (s : GuardedStack α) : Prop := s.faults = []

/-- A stack is intact exactly if its sentinels are alive and its checksum is the sum of its
elements. -/
theorem intact_iff : s.Intact ↔
    s.front = canary ∧ s.back = canary ∧ s.redundant = canary ∧
      totalOf s.toList = s.checksum := by
  have hif {c : Prop} [Decidable c] {f : StackFault} : (if c then [] else [f]) = [] ↔ c := by
    split <;> simp_all
  simp only [Intact, faults, List.append_eq_nil_iff, hif, sumOf_eq, toList, and_assoc]

/-- A stack verifies exactly if it is intact. -/
theorem verify_eq_none : s.verify = none ↔ s.Intact := List.head?_eq_none_iff

theorem check_of_intact (hs : s.Intact) (operation : String) : s.check operation = .ok () := by
  rw [check, hs]

/-- A change from an intact stack to another passes both checks. -/
theorem guarded_of_intact {changed : GuardedStack α} (hs : s.Intact) (hchanged : changed.Intact)
    (operation : String) : s.guarded operation changed = .ok changed := by
  rw [guarded, check_of_intact hs, check_of_intact hchanged]
  rfl

theorem intact_empty (capacity : Nat) : (empty capacity : GuardedStack α).Intact :=
  intact_iff.mpr ⟨rfl, rfl, rfl, rfl⟩

/-- New elements with their own sum keep the guards in order. -/
theorem Intact.with_items (hs : s.Intact) (capacity : Nat) {items : Array α} {checksum : UInt64}
    (hsum : totalOf items.toList = checksum) :
    ({ s with items, capacity, checksum } : GuardedStack α).Intact := by
  obtain ⟨hfront, hback, hredundant, _⟩ := intact_iff.mp hs
  exact intact_iff.mpr ⟨hfront, hback, hredundant, hsum⟩

theorem totalOf_toList (hs : s.Intact) : totalOf s.toList = s.checksum :=
  (intact_iff.mp hs).2.2.2

/-! ## The elements -/

omit [Guarded α] in
theorem size_eq (s : GuardedStack α) : s.size = s.toList.length := by
  simp [size, toList]

omit [Guarded α] in
theorem top?_eq (s : GuardedStack α) : s.top? = s.toList.getLast? := by
  simp [top?, toList]

omit [Guarded α] in
theorem get?_eq (s : GuardedStack α) (i : Nat) : s.get? i = s.toList[i]? := by
  simp [get?, toList]

omit [Guarded α] in
@[simp] theorem toList_empty (capacity : Nat) : (empty capacity : GuardedStack α).toList = [] := rfl

/-! ## Operations -/

/-- A push puts the element at the end. -/
theorem push_of_intact (hs : s.Intact) (a : α) :
    ∃ s', s.push a = .ok s' ∧ s'.Intact ∧ s'.toList = s.toList ++ [a] := by
  have hsum := totalOf_toList hs
  have hpushed : totalOf (s.items.push a).toList = s.checksum + byteSum a := by
    rw [Array.toList_push, totalOf_append, ← hsum, toList, totalOf, totalOf, UInt64.add_zero]
  have hchanged :=
    hs.with_items (if s.size = s.capacity then s.capacity * 2 else s.capacity) hpushed
  exact ⟨_, guarded_of_intact hs hchanged "push", hchanged, Array.toList_push⟩

/-- A pop of an empty stack finds nothing. -/
theorem tryPop_of_nil (hs : s.Intact) (hnil : s.toList = []) : s.tryPop = .ok (none, s) := by
  rw [tryPop, top?_eq, hnil]
  simp only [List.getLast?_nil, check_of_intact hs]
  rfl

/-- A pop takes the last element. -/
theorem tryPop_of_append (hs : s.Intact) {as : List α} {a : α} (hlist : s.toList = as ++ [a]) :
    ∃ s', s.tryPop = .ok (some a, s') ∧ s'.Intact ∧ s'.toList = as := by
  have hsum := totalOf_toList hs
  have hpopped : s.items.pop.toList = as := by
    rw [Array.toList_pop, show s.items.toList = as ++ [a] from hlist, List.dropLast_concat]
  have hrest : totalOf s.items.pop.toList = s.checksum - byteSum a := by
    rw [← hsum, hlist, hpopped, totalOf_append, totalOf, totalOf]
    grind
  have hchanged := hs.with_items (shrink s.minCapacity (s.size - 1) s.capacity) hrest
  refine ⟨_, ?_, hchanged, hpopped⟩
  rw [tryPop, top?_eq, hlist, List.getLast?_concat]
  simp only [guarded_of_intact hs hchanged "pop"]
  rfl

/-- Replacing an element beyond the end does nothing. -/
theorem set_of_le (hs : s.Intact) {i : Nat} (hi : s.toList.length ≤ i) (a : α) :
    s.set i a = .ok (false, s) := by
  rw [set, get?_eq, List.getElem?_eq_none hi]
  simp only [check_of_intact hs]
  rfl

/-- Replacing an element replaces it in the list. -/
theorem set_of_lt (hs : s.Intact) {i : Nat} (hi : i < s.toList.length) (a : α) :
    ∃ s', s.set i a = .ok (true, s') ∧ s'.Intact ∧ s'.toList = s.toList.set i a := by
  have hsum := totalOf_toList hs
  have hreplaced : (s.items.setIfInBounds i a).toList = s.toList.set i a :=
    Array.toList_setIfInBounds
  have hnew : totalOf (s.items.setIfInBounds i a).toList =
      s.checksum - byteSum s.toList[i] + byteSum a := by
    rw [hreplaced, totalOf_set hi, hsum]
  have hchanged := hs.with_items s.capacity hnew
  refine ⟨_, ?_, hchanged, hreplaced⟩
  rw [set, get?_eq, List.getElem?_eq_getElem hi]
  simp only [guarded_of_intact hs hchanged "set"]
  rfl

/-- Truncation keeps the first elements. -/
theorem truncate_of_intact (hs : s.Intact) (length : Nat) :
    ∃ s', s.truncate length = .ok s' ∧ s'.Intact ∧ s'.toList = s.toList.take length := by
  have hsum := totalOf_toList hs
  have hkept : (s.items.take length).toList = s.toList.take length := by
    simp [toList]
  have hdropped : (s.items.drop length).toList = s.toList.drop length := by
    rw [toList, Array.drop_eq_extract, Array.toList_extract, List.extract_eq_take_drop]
    exact List.take_of_length_le (by simp)
  have hsplit : totalOf s.toList = totalOf (s.toList.take length) + totalOf (s.toList.drop length) := by
    rw [← totalOf_append, List.take_append_drop]
  have hrest : totalOf (s.items.take length).toList =
      s.checksum - sumOf (s.items.drop length) := by
    rw [sumOf_eq, hdropped, hkept, ← hsum, hsplit]
    grind
  have hchanged := hs.with_items (shrink s.minCapacity (min length s.size) s.capacity) hrest
  exact ⟨_, guarded_of_intact hs hchanged "truncate", hchanged, hkept⟩

end StackMachine.GuardedStack
