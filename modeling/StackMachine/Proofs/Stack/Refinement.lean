import Mathlib.Algebra.GroupWithZero.Nat
import Mathlib.Logic.Function.Iterate
import StackMachine.Proofs.Fallible
import StackMachine.Proofs.Stack.Intact

/-!
# Guarded stacks behave as lists

Stacks made from one empty stack, by any operations on it, on its copies and on what is
taken out of them, answer as plain lists do.  Two things are followed besides the elements:
the guards, which stay in order, and the capacity, which is the initial one doubled some
number of times and more than a quarter full whenever it has been doubled at all.

Main definitions:

- `ShrinksFor`, how many rounds the shrink loop makes;
- `Accounted`, what holds of the capacity;
- `Command`, the operations as data, and `performAll`, commands for the members of a family.

Main results:

- Theorem `shrink_two_pow`: the shrink loop halves a doubled capacity so many times.
- Theorem `run_of_intact`: one command keeps the guards and the capacity in order, and does
  to a stack what it does to a list.
- Theorem `performAll_eq_lists`: so do any commands for a family.
-/

namespace StackMachine.GuardedStack

open Fallible

/-! ## Capacities -/

/-- Whether the shrink loop makes another round. -/
def Shrinks (floor size capacity : Nat) : Prop := floor < capacity ∧ size ≤ capacity / 4

/-- One round of the shrink loop. -/
def halve (floor capacity : Nat) : Nat := max (capacity / 2) floor

theorem halve_two_pow (floor k : Nat) : halve floor (floor * 2 ^ (k + 1)) = floor * 2 ^ k := by
  have hhalf : floor * 2 ^ (k + 1) / 2 = floor * 2 ^ k := by
    rw [Nat.pow_succ, ← Nat.mul_assoc, Nat.mul_div_cancel _ Nat.two_pos]
  rw [halve, hhalf]
  exact Nat.max_eq_left (Nat.le_mul_of_pos_right _ (Nat.two_pow_pos k))

/-- A capacity does not shrink below the size. -/
theorem le_shrink {floor size capacity : Nat} (hle : size ≤ capacity) :
    size ≤ shrink floor size capacity := by
  fun_induction shrink floor size capacity with
  | case1 capacity hshrinks ih => exact ih (by omega)
  | case2 capacity _ => exact hle

/-- The shrink loop makes so many rounds from a capacity on, no more, and gives the capacity
after the last one. -/
structure ShrinksFor (floor size capacity rounds : Nat) : Prop where
  goes_on : ∀ i < rounds, Shrinks floor size ((halve floor)^[i] capacity)
  ends : ¬ Shrinks floor size ((halve floor)^[rounds] capacity)
  result : shrink floor size capacity = (halve floor)^[rounds] capacity

theorem shrinksFor_zero {floor size capacity : Nat} (hends : ¬ Shrinks floor size capacity) :
    ShrinksFor floor size capacity 0 := by
  refine ⟨by simp, hends, ?_⟩
  rw [shrink]
  exact if_neg hends

/-- A capacity that is to shrink takes one round more than its half. -/
theorem ShrinksFor.succ {floor size capacity rounds : Nat} (hshrinks : Shrinks floor size capacity)
    (hrest : ShrinksFor floor size (halve floor capacity) rounds) :
    ShrinksFor floor size capacity (rounds + 1) := by
  refine ⟨fun i hi => ?_, hrest.ends, ?_⟩
  · cases i with
    | zero => exact hshrinks
    | succ i => exact hrest.goes_on i (Nat.lt_of_succ_lt_succ hi)
  · rw [Function.iterate_succ_apply, ← hrest.result, shrink]
    exact if_pos hshrinks

/-- The shrink loop ends after at most as many rounds as the capacity was doubled. -/
theorem shrink_two_pow (floor size k : Nat) :
    ∃ rounds ≤ k, ShrinksFor floor size (floor * 2 ^ k) rounds ∧
      (halve floor)^[rounds] (floor * 2 ^ k) = floor * 2 ^ (k - rounds) := by
  induction k with
  | zero => exact ⟨0, Nat.le_refl 0, shrinksFor_zero (by simp [Shrinks]), rfl⟩
  | succ k ih =>
    by_cases hshrinks : Shrinks floor size (floor * 2 ^ (k + 1))
    · rcases ih with ⟨rounds, hle, hrest, hpow⟩
      refine ⟨rounds + 1, Nat.succ_le_succ hle, ShrinksFor.succ hshrinks ?_, ?_⟩
      · rwa [halve_two_pow]
      · rw [Function.iterate_succ_apply, halve_two_pow, hpow, Nat.add_sub_add_right]
    · exact ⟨0, Nat.zero_le _, shrinksFor_zero hshrinks, rfl⟩

variable {α : Type} {s s' : GuardedStack α} {c : Nat}

/-- What holds of the capacity of a stack that was made with the given one: it is the
initial one doubled some number of times, it suffices, and more than a quarter is in use if
it was doubled. -/
structure Accounted (c : Nat) (s : GuardedStack α) : Prop where
  minCapacity_eq : s.minCapacity = max c 1
  capacity_eq : ∃ k, s.capacity = max c 1 * 2 ^ k ∧ (0 < k → s.capacity / 4 < s.size)
  size_le : s.size ≤ s.capacity

theorem initial_pos (c : Nat) : 0 < max c 1 :=
  Nat.lt_of_lt_of_le Nat.one_pos (Nat.le_max_right c 1)

/-- The empty stack has its initial capacity. -/
theorem accounted_empty (c : Nat) : (empty c : GuardedStack α).Accounted c :=
  ⟨rfl, ⟨0, by simp [empty], by simp⟩, Nat.zero_le _⟩

/-- The least capacity is the initial one. -/
theorem Accounted.max_minCapacity (hs : s.Accounted c) : max s.minCapacity 1 = max c 1 := by
  rw [hs.minCapacity_eq, Nat.max_assoc, Nat.max_self]

/-- More elements that still fit keep the capacity in order. -/
theorem Accounted.of_same_capacity (hs : s.Accounted c) (hmin : s'.minCapacity = s.minCapacity)
    (hcapacity : s'.capacity = s.capacity) (hle : s.size ≤ s'.size)
    (hfits : s'.size ≤ s.capacity) : s'.Accounted c := by
  rcases hs.capacity_eq with ⟨k, hk, hquarter⟩
  refine ⟨hmin.trans hs.minCapacity_eq, ⟨k, hcapacity.trans hk, fun hpos => ?_⟩, ?_⟩
  · rw [hcapacity]
    exact Nat.lt_of_lt_of_le (hquarter hpos) hle
  · rwa [hcapacity]

/-- Doubling the capacity of a full stack for one more element keeps it in order. -/
theorem Accounted.of_doubled (hs : s.Accounted c) (hmin : s'.minCapacity = s.minCapacity)
    (hfull : s.size = s.capacity) (hcapacity : s'.capacity = s.capacity * 2)
    (hsize : s'.size = s.size + 1) : s'.Accounted c := by
  rcases hs.capacity_eq with ⟨k, hk, _⟩
  have hpos : 0 < s.capacity := hk ▸ Nat.mul_pos (initial_pos c) (Nat.two_pow_pos k)
  refine ⟨hmin.trans hs.minCapacity_eq, ⟨k + 1, ?_, fun _ => ?_⟩, ?_⟩
  · rw [hcapacity, hk, Nat.pow_succ, Nat.mul_assoc]
  · omega
  · omega

/-- Shrinking after elements were removed keeps the capacity in order. -/
theorem Accounted.of_shrunk (hs : s.Accounted c) (hmin : s'.minCapacity = s.minCapacity)
    (hcapacity : s'.capacity = shrink s.minCapacity s'.size s.capacity)
    (hle : s'.size ≤ s.size) : s'.Accounted c := by
  have hfits : s'.size ≤ s'.capacity := hcapacity ▸ le_shrink (Nat.le_trans hle hs.size_le)
  rcases hs.capacity_eq with ⟨k, hk, _⟩
  rcases shrink_two_pow (max c 1) s'.size k with ⟨rounds, _, hrounds, hpow⟩
  rw [hs.minCapacity_eq, hk, hrounds.result, hpow] at hcapacity
  have hends := hrounds.ends
  rw [hpow, ← hcapacity] at hends
  refine ⟨hmin.trans hs.minCapacity_eq, ⟨k - rounds, hcapacity, fun hpos => ?_⟩, hfits⟩
  have hdoubled : max c 1 < s'.capacity := by
    rw [hcapacity]
    exact (Nat.lt_mul_iff_one_lt_right (initial_pos c)).mpr (Nat.one_lt_two_pow (Nat.ne_of_gt hpos))
  exact Nat.lt_of_not_le fun hquarter => hends ⟨hdoubled, hquarter⟩

/-! ## Commands -/

/-- An operation on a stack, with what it is given. -/
inductive Command (α : Type) where
  | push (a : α)
  | tryPop
  | set (i : Nat) (a : α)
  | truncate (length : Nat)
  | clone
  | take

/-- What an operation answers. -/
inductive Answer (α : Type) where
  | nothing
  /-- The element that was removed, if there was one. -/
  | popped (a? : Option α)
  /-- Whether the place exists. -/
  | replaced (exists? : Bool)

/-- Carries out a command on a stack: the answer, the stack after it, and the stack that it
has made, if it makes one. -/
def Command.run [Guarded α] (command : Command α) (s : GuardedStack α) :
    Except Abort (Answer α × GuardedStack α × Option (GuardedStack α)) :=
  match command with
  | push a => do return (.nothing, ← s.push a, none)
  | tryPop => do
    let (a?, s') ← s.tryPop
    return (.popped a?, s', none)
  | set i a => do
    let (exists?, s') ← s.set i a
    return (.replaced exists?, s', none)
  | truncate length => do return (.nothing, ← s.truncate length, none)
  | clone => do return (.nothing, s, some (← s.clone))
  | take => do
    let (moved, left) ← s.take
    return (.nothing, left, some moved)

/-- Carries out a command on a plain list, whose end is the top. -/
def Command.onList (command : Command α) (as : List α) :
    Answer α × List α × Option (List α) :=
  match command with
  | push a => (.nothing, as ++ [a], none)
  | tryPop => (.popped as.getLast?, as.dropLast, none)
  | set i a => (.replaced (i < as.length), as.set i a, none)
  | truncate length => (.nothing, as.take length, none)
  | clone => (.nothing, as, some as)
  | take => (.nothing, [], some as)

/-- Carries out commands, each for the member of a family with the given number.  What a
command makes joins the family at its end, and a command for a member that does not exist
is passed over.  Gives the answers and the family after them. -/
def performAll {ε σ : Type} (run : Command α → σ → Except ε (Answer α × σ × Option σ)) :
    List (Nat × Command α) → List σ → Except ε (List (Answer α) × List σ)
  | [], family => .ok ([], family)
  | (number, command) :: rest, family =>
    match family[number]? with
    | none => performAll run rest family
    | some member => do
      let (answer, member', made) ← run command member
      let (answers, family') ← performAll run rest (family.set number member' ++ made.toList)
      return (answer :: answers, family')

section Refinement

variable [Guarded α]

/-! ## What the operations do to the capacity -/

theorem eq_of_guarded {operation : String} {changed : GuardedStack α}
    (hs' : s.guarded operation changed = .ok s') : s' = changed := by
  simp only [guarded, bind_eq_ok, pure_eq_ok] at hs'
  rcases hs' with ⟨_, _, _, _, hchanged⟩
  exact hchanged.symm

/-- A push keeps the capacity within bounds. -/
theorem Accounted.push (hs : s.Accounted c) {a : α} (hpush : s.push a = .ok s') :
    s'.Accounted c := by
  cases eq_of_guarded hpush
  by_cases hfull : s.size = s.capacity
  · exact hs.of_doubled rfl hfull (if_pos hfull) (by simp [size])
  · have hroom : s.size + 1 ≤ s.capacity := Nat.lt_of_le_of_ne hs.size_le hfull
    exact hs.of_same_capacity rfl (if_neg hfull) (by simp [size]) (by simpa [size] using hroom)

/-- A pop keeps the capacity within bounds. -/
theorem Accounted.tryPop (hs : s.Accounted c) {a? : Option α} (hpop : s.tryPop = .ok (a?, s')) :
    s'.Accounted c := by
  unfold GuardedStack.tryPop at hpop
  split at hpop <;> simp only [bind_eq_ok, pure_eq_ok] at hpop
  · rcases hpop with ⟨_, _, hkept⟩
    cases hkept
    exact hs
  · rcases hpop with ⟨changed, hchanged, hpopped⟩
    cases hpopped
    cases eq_of_guarded hchanged
    exact hs.of_shrunk rfl (by simp [size]) (by simp [size])

/-- Replacing an element keeps the capacity within bounds. -/
theorem Accounted.set (hs : s.Accounted c) {i : Nat} {a : α} {exists? : Bool}
    (hset : s.set i a = .ok (exists?, s')) : s'.Accounted c := by
  unfold GuardedStack.set at hset
  split at hset <;> simp only [bind_eq_ok, pure_eq_ok] at hset
  · rcases hset with ⟨_, _, hkept⟩
    cases hkept
    exact hs
  · rcases hset with ⟨changed, hchanged, hreplaced⟩
    cases hreplaced
    cases eq_of_guarded hchanged
    exact hs.of_same_capacity rfl rfl (by simp [size]) (by simpa [size] using hs.size_le)

/-- Truncating keeps the capacity within bounds. -/
theorem Accounted.truncate (hs : s.Accounted c) {length : Nat}
    (htruncate : s.truncate length = .ok s') : s'.Accounted c := by
  cases eq_of_guarded htruncate
  have hsize : (s.items.take length).size = min length s.size := by simp [size]
  exact hs.of_shrunk rfl (by simp [size]) (Nat.le_trans (Nat.le_of_eq hsize) (Nat.min_le_right _ _))

/-! ## Commands on stacks and on lists -/

/-- What is taken out of an intact stack is the stack, and an empty one is left. -/
theorem take_of_intact (hs : s.Intact) : s.take = .ok (s, empty s.minCapacity) := by
  rw [take, check_of_intact hs]
  rfl

/-- A copy of an intact stack is the stack: its sentinels are in order already. -/
theorem clone_of_intact (hs : s.Intact) : s.clone = .ok s := by
  obtain ⟨hfront, hback, hredundant, _⟩ := intact_iff.mp hs
  obtain ⟨front, items, capacity, minCapacity, checksum, back, redundant⟩ := s
  cases hfront
  cases hback
  cases hredundant
  rw [clone, check_of_intact hs]
  rfl

/-- A command keeps the guards and the capacity in order, and does to a stack what it does to
a list. -/
theorem run_of_intact (hs : s.Intact) (hc : s.Accounted c) (command : Command α) :
    ∃ answer s' made, command.run s = .ok (answer, s', made) ∧
      command.onList s.toList = (answer, s'.toList, made.map toList) ∧
      ∀ t ∈ s' :: made.toList, t.Intact ∧ t.Accounted c := by
  cases command with
  | push a =>
    rcases push_of_intact hs a with ⟨s', hpush, hs', hlist⟩
    refine ⟨.nothing, s', none, ?_, ?_, ?_⟩
    · simp only [Command.run, hpush]
      rfl
    · simp [Command.onList, hlist]
    · simpa using ⟨hs', hc.push hpush⟩
  | tryPop =>
    rcases List.eq_nil_or_concat s.toList with hnil | ⟨as, a, hlist⟩
    · have hpop := tryPop_of_nil hs hnil
      refine ⟨.popped none, s, none, ?_, ?_, ?_⟩
      · simp only [Command.run, hpop]
        rfl
      · simp [Command.onList, hnil]
      · simpa using ⟨hs, hc⟩
    · rw [List.concat_eq_append] at hlist
      rcases tryPop_of_append hs hlist with ⟨s', hpop, hs', hrest⟩
      refine ⟨.popped (some a), s', none, ?_, ?_, ?_⟩
      · simp only [Command.run, hpop]
        rfl
      · simp [Command.onList, hlist, hrest]
      · simpa using ⟨hs', hc.tryPop hpop⟩
  | set i a =>
    rcases Nat.lt_or_ge i s.toList.length with hlt | hge
    · rcases set_of_lt hs hlt a with ⟨s', hset, hs', hlist⟩
      refine ⟨.replaced true, s', none, ?_, ?_, ?_⟩
      · simp only [Command.run, hset]
        rfl
      · simp [Command.onList, hlist, hlt]
      · simpa using ⟨hs', hc.set hset⟩
    · have hset := set_of_le hs hge a
      refine ⟨.replaced false, s, none, ?_, ?_, ?_⟩
      · simp only [Command.run, hset]
        rfl
      · simp [Command.onList, Nat.not_lt.mpr hge, List.set_eq_of_length_le hge]
      · simpa using ⟨hs, hc⟩
  | truncate length =>
    rcases truncate_of_intact hs length with ⟨s', htruncate, hs', hlist⟩
    refine ⟨.nothing, s', none, ?_, ?_, ?_⟩
    · simp only [Command.run, htruncate]
      rfl
    · simp [Command.onList, hlist]
    · simpa using ⟨hs', hc.truncate htruncate⟩
  | clone =>
    refine ⟨.nothing, s, some s, ?_, rfl, ?_⟩
    · simp only [Command.run, clone_of_intact hs]
      rfl
    · simpa using ⟨hs, hc⟩
  | take =>
    have hempty : (empty s.minCapacity : GuardedStack α).Accounted c :=
      ⟨hc.max_minCapacity, ⟨0, by simp [empty, hc.max_minCapacity], by simp⟩, Nat.zero_le _⟩
    refine ⟨.nothing, empty s.minCapacity, some s, ?_, rfl, ?_⟩
    · simp only [Command.run, take_of_intact hs]
      rfl
    · simpa using ⟨⟨intact_empty _, hempty⟩, hs, hc⟩

/-- Commands on the members of a family keep the guards and the capacities in order, and do
to the stacks what they do to lists. -/
theorem performAll_of_intact (commands : List (Nat × Command α)) {family : List (GuardedStack α)}
    (hfamily : ∀ s ∈ family, s.Intact ∧ s.Accounted c) :
    ∃ answers family', performAll Command.run commands family = .ok (answers, family') ∧
      performAll (fun command as => (.ok (command.onList as) : Except Abort _)) commands
        (family.map toList) = .ok (answers, family'.map toList) ∧
      ∀ s ∈ family', s.Intact ∧ s.Accounted c := by
  induction commands generalizing family with
  | nil => exact ⟨[], family, rfl, rfl, hfamily⟩
  | cons head rest ih =>
    rcases head with ⟨number, command⟩
    cases hmember : family[number]? with
    | none =>
      rcases ih hfamily with ⟨answers, family', hrun, hlist, hfamily'⟩
      refine ⟨answers, family', ?_, ?_, hfamily'⟩
      · simp only [performAll, hmember, hrun]
      · simp only [performAll, List.getElem?_map, hmember, Option.map_none, hlist]
    | some s =>
      have hs := hfamily s (List.mem_of_getElem? hmember)
      rcases run_of_intact hs.1 hs.2 command with ⟨answer, s', made, hrun, hlist, hkept⟩
      have hnext : ∀ t ∈ family.set number s' ++ made.toList, t.Intact ∧ t.Accounted c := by
        intro t ht
        rcases List.mem_append.mp ht with ht | ht
        · rcases List.mem_or_eq_of_mem_set ht with ht | rfl
          · exact hfamily t ht
          · exact hkept t List.mem_cons_self
        · exact hkept t (List.mem_cons_of_mem _ ht)
      rcases ih hnext with ⟨answers, family', hrest, hrestList, hfamily'⟩
      refine ⟨answer :: answers, family', ?_, ?_, hfamily'⟩
      · simp only [performAll, hmember, hrun, hrest, bind, Except.bind, pure, Except.pure]
      · have hmap : (family.map toList).set number s'.toList ++ (made.map toList).toList =
            (family.set number s' ++ made.toList).map toList := by
          rw [List.map_append, List.map_set, Option.toList_map]
        simp only [performAll, List.getElem?_map, hmember, Option.map_some, hlist, bind,
          Except.bind, hmap, hrestList, pure, Except.pure]

/-- The sum of the bytes of some elements is their number modulo two to the 64th. -/
theorem toNat_totalOf (as : List α) :
    (totalOf as).toNat = (as.map fun a => (byteSum a).toNat).sum % 2 ^ 64 := by
  induction as with
  | nil => rfl
  | cons a as ih =>
    rw [totalOf, UInt64.toNat_add, ih, List.map_cons, List.sum_cons, Nat.add_mod_mod]

/-- The stored checksum of an intact stack counts the bytes of its elements. -/
theorem toNat_checksum (hs : s.Intact) :
    s.checksum.toNat = (s.toList.map fun a => (byteSum a).toNat).sum % 2 ^ 64 := by
  rw [← totalOf_toList hs, toNat_totalOf]

/-- Any commands for a family that starts with one empty stack are carried out, without an
abort, and give the answers and the elements that they give for lists.  The guards of every
stack of the family are in order, its capacity is the initial one doubled some number of
times, it suffices, and more than a quarter is in use if it was doubled. -/
theorem performAll_eq_lists (c : Nat) (commands : List (Nat × Command α)) :
    ∃ answers family, performAll Command.run commands [empty c] = .ok (answers, family) ∧
      performAll (fun command as => (.ok (command.onList as) : Except Abort _)) commands [[]] =
        .ok (answers, family.map toList) ∧
      ∀ s ∈ family,
        (s.size = s.toList.length ∧ s.top? = s.toList.getLast? ∧ ∀ i, s.get? i = s.toList[i]?) ∧
        (s.verify = none ∧ s.front = canary ∧ s.back = canary ∧ s.redundant = canary ∧
          s.checksum.toNat = (s.toList.map fun a => (byteSum a).toNat).sum % 2 ^ 64) ∧
        (∃ k, s.capacity = max c 1 * 2 ^ k ∧ s.size ≤ s.capacity ∧
          (0 < k → s.capacity / 4 < s.size) ∧
          ∀ size, ∃ rounds ≤ k, ShrinksFor s.minCapacity size s.capacity rounds) ∧
        (s.toList = [] → s.tryPop = .ok (none, s)) ∧
        (∀ i a, s.toList.length ≤ i → s.set i a = .ok (false, s)) ∧
        ∃ left, s.take = .ok (s, left) ∧ left.toList = [] ∧ left.capacity = max c 1 := by
  have hstart : ∀ s ∈ [(empty c : GuardedStack α)], s.Intact ∧ s.Accounted c := by
    intro s hs
    rw [List.mem_singleton] at hs
    exact hs ▸ ⟨intact_empty c, accounted_empty c⟩
  rcases performAll_of_intact commands hstart with ⟨answers, family, hrun, hlists, hfamily⟩
  refine ⟨answers, family, hrun, hlists, fun s hs => ?_⟩
  obtain ⟨hintact, hc⟩ := hfamily s hs
  obtain ⟨hfront, hback, hredundant, _⟩ := intact_iff.mp hintact
  obtain ⟨k, hcapacity, hquarter⟩ := hc.capacity_eq
  refine ⟨⟨size_eq s, top?_eq s, get?_eq s⟩, ⟨verify_eq_none.mpr hintact, hfront, hback, hredundant,
    toNat_checksum hintact⟩, ⟨k, hcapacity, hc.size_le, hquarter, fun size => ?_⟩,
    tryPop_of_nil hintact, fun i a hi => set_of_le hintact hi a,
    empty s.minCapacity, take_of_intact hintact, rfl, ?_⟩
  · rcases shrink_two_pow (max c 1) size k with ⟨rounds, hle, hrounds, _⟩
    rw [hc.minCapacity_eq, hcapacity]
    exact ⟨rounds, hle, hrounds⟩
  · exact hc.max_minCapacity

end Refinement

end StackMachine.GuardedStack
