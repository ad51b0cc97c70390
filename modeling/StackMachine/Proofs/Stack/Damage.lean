import Mathlib.Data.Nat.ModEq
import StackMachine.Proofs.Stack.Refinement

/-!
# Damage to guarded stacks

Stray writes overwrite elements and sentinel words behind the back of the stored checksum.
The guards find this exactly if a sentinel differs or the bytes of the elements have another
sum than before, modulo two to the 64th.  A stack that is found damaged refuses every
operation, and its report shows the state it was found in.  A stack whose damage is not found
is as good as one that was filled with the elements it now has.

Main definitions:

- `Damage` and `damaged`, stray writes;
- `Guard.Holds` and `Guard.fault`, when a guard is in order and what is said of it if not;
- `reportOf` and `Refuses`, the operations of a stack that is found damaged;
- `Serves`, the operations of a stack that is not.

Main results:

- Theorem `faults_eq`: the guards that are reported are the broken ones, in their order.
- Theorem `refuses_of_faults`: each operation fails at its first check.
- Theorem `damage_detected`: what holds of every stack that is reached and then damaged.
-/

namespace StackMachine.GuardedStack

/-- A stray write. -/
inductive Damage (α : Type) where
  | item (i : Nat) (a : α)
  | sentinel (which : Sentinel) (word : UInt32)

variable {α : Type}

/-- A stack after a stray write. -/
def Damage.apply (s : GuardedStack α) : Damage α → GuardedStack α
  | item i a => s.overwriteItem i a
  | sentinel which word => s.overwriteSentinel word which

/-- A stack after stray writes, one after the other. -/
def damaged (s : GuardedStack α) (damages : List (Damage α)) : GuardedStack α :=
  damages.foldl Damage.apply s

/-! ## What stray writes leave alone -/

/-- The fields that no stray write reaches are the same. -/
structure SameAccount (s t : GuardedStack α) : Prop where
  size_eq : t.size = s.size
  capacity_eq : t.capacity = s.capacity
  minCapacity_eq : t.minCapacity = s.minCapacity
  checksum_eq : t.checksum = s.checksum

/-- A stray write reaches elements and sentinels only. -/
theorem sameAccount_apply (s : GuardedStack α) (damage : Damage α) :
    SameAccount s (damage.apply s) := by
  cases damage with
  | item i a => exact ⟨by simp [Damage.apply, overwriteItem, size], rfl, rfl, rfl⟩
  | sentinel which word => cases which <;> exact ⟨rfl, rfl, rfl, rfl⟩

/-- So do many stray writes. -/
theorem sameAccount_damaged (s : GuardedStack α) (damages : List (Damage α)) :
    SameAccount s (s.damaged damages) := by
  induction damages generalizing s with
  | nil => exact ⟨rfl, rfl, rfl, rfl⟩
  | cons damage damages ih =>
    have hfirst := sameAccount_apply s damage
    have hrest := ih (damage.apply s)
    exact ⟨hrest.size_eq.trans hfirst.size_eq, hrest.capacity_eq.trans hfirst.capacity_eq,
      hrest.minCapacity_eq.trans hfirst.minCapacity_eq,
      hrest.checksum_eq.trans hfirst.checksum_eq⟩

/-- A stack that is damaged keeps its capacity within bounds. -/
theorem SameAccount.accounted {s t : GuardedStack α} {c : Nat} (hst : SameAccount s t)
    (hs : s.Accounted c) : t.Accounted c :=
  hs.of_same_capacity hst.minCapacity_eq hst.capacity_eq hst.size_eq.ge
    (hst.size_eq.trans_le hs.size_le)

variable [Guarded α] {s t : GuardedStack α}

/-! ## Sums of bytes -/

/-- The sum of the bytes of some elements, as a number. -/
def byteTotal (as : List α) : Nat := (as.map fun a => (byteSum a).toNat).sum

/-- The sum of the bytes, modulo two to the 64th, is what a checksum stores. -/
theorem toUInt64_byteTotal (as : List α) : (byteTotal as).toUInt64 = totalOf as := by
  apply UInt64.toNat_inj.mp
  rw [toNat_totalOf]
  exact UInt64.toNat_ofNat'

/-- Checksums are equal exactly if the sums are congruent. -/
theorem totalOf_eq_iff {as bs : List α} :
    totalOf as = totalOf bs ↔ byteTotal as ≡ byteTotal bs [MOD 2 ^ 64] := by
  rw [← UInt64.toNat_inj, toNat_totalOf, toNat_totalOf]
  rfl

/-! ## Guards -/

/-- The guards of a stack. -/
inductive Guard where
  | front | back | redundant | checksum
deriving DecidableEq

namespace Guard

/-- All guards, in the order in which they are reported. -/
def all : List Guard := [front, back, redundant, checksum]

/-- A guard is in order in a stack that had the given elements when all of them were. -/
def Holds (before : List α) (t : GuardedStack α) : Guard → Prop
  | front => t.front = canary
  | back => t.back = canary
  | redundant => t.redundant = canary
  | checksum => byteTotal t.toList ≡ byteTotal before [MOD 2 ^ 64]

instance (before : List α) (t : GuardedStack α) : DecidablePred (Holds before t)
  | front => inferInstanceAs (Decidable (t.front = canary))
  | back => inferInstanceAs (Decidable (t.back = canary))
  | redundant => inferInstanceAs (Decidable (t.redundant = canary))
  | checksum => inferInstanceAs (Decidable (byteTotal t.toList ≡ byteTotal before [MOD 2 ^ 64]))

/-- What is reported of a guard that is broken. -/
def fault (before : List α) (t : GuardedStack α) : Guard → StackFault
  | front => .frontSentinel t.front
  | back => .backSentinel t.back
  | redundant => .redundantSentinel t.redundant
  | checksum => .checksum (byteTotal before).toUInt64 (byteTotal t.toList).toUInt64

end Guard

/-- The sum of the bytes is the stored one exactly if it has not changed. -/
theorem sumOf_eq_checksum_iff (hs : s.Intact) (hst : SameAccount s t) :
    sumOf t.items = t.checksum ↔ byteTotal t.toList ≡ byteTotal s.toList [MOD 2 ^ 64] := by
  rw [hst.checksum_eq, ← totalOf_toList hs, sumOf_eq, ← totalOf_eq_iff]
  rfl

/-- The broken guards, in the order in which they are reported. -/
def brokenGuards (before : List α) (t : GuardedStack α) : List Guard :=
  Guard.all.filter fun g => ¬ g.Holds before t

/-- The guards that are reported are the broken ones, in their order. -/
theorem faults_eq (hs : s.Intact) (hst : SameAccount s t) :
    t.faults = (brokenGuards s.toList t).map (Guard.fault s.toList t) := by
  have hparts (guards : List Guard) :
      (guards.filter fun g => ¬ g.Holds s.toList t).map (Guard.fault s.toList t) =
        guards.flatMap fun g => if g.Holds s.toList t then [] else [g.fault s.toList t] := by
    induction guards with
    | nil => rfl
    | cons g guards ih =>
      by_cases hholds : g.Holds s.toList t
      · simpa [hholds] using ih
      · simpa [hholds] using ih
  have hchecksum : StackFault.checksum t.checksum (sumOf t.items) =
      Guard.fault s.toList t .checksum := by
    rw [Guard.fault, toUInt64_byteTotal, toUInt64_byteTotal, totalOf_toList hs, hst.checksum_eq,
      sumOf_eq, toList]
  have hlast : (if sumOf t.items = t.checksum then []
      else [StackFault.checksum t.checksum (sumOf t.items)]) =
        if Guard.Holds s.toList t .checksum then [] else [Guard.fault s.toList t .checksum] :=
    if_congr (sumOf_eq_checksum_iff hs hst) rfl (by rw [hchecksum])
  rw [brokenGuards, hparts, faults, hlast]
  simp only [Guard.all, List.flatMap_cons, List.flatMap_nil, List.append_nil, List.append_assoc]
  rfl

/-- The guards are in order exactly if no sentinel differs and the bytes have the same sum. -/
theorem verify_eq_none_iff (hs : s.Intact) (hst : SameAccount s t) :
    t.verify = none ↔ t.front = canary ∧ t.back = canary ∧ t.redundant = canary ∧
      byteTotal t.toList ≡ byteTotal s.toList [MOD 2 ^ 64] := by
  rw [verify_eq_none, intact_iff, hst.checksum_eq, ← totalOf_toList hs, totalOf_eq_iff]

/-- A single element that is overwritten is found exactly if its own bytes have another sum. -/
theorem verify_overwriteItem (hs : s.Intact) {i : Nat} {old : α} (hold : s.toList[i]? = some old)
    (a : α) : (s.overwriteItem i a).verify = none ↔ byteSum a = byteSum old := by
  obtain ⟨hi, rfl⟩ := List.getElem?_eq_some_iff.mp hold
  obtain ⟨hfront, hback, hredundant, hsum⟩ := intact_iff.mp hs
  have hlist : (s.overwriteItem i a).toList = s.toList.set i a := Array.toList_setIfInBounds
  have hstored : (s.overwriteItem i a).verify = none ↔ totalOf (s.toList.set i a) = s.checksum := by
    rw [verify_eq_none, intact_iff, hlist]
    exact ⟨fun h => h.2.2.2, fun h => ⟨hfront, hback, hredundant, h⟩⟩
  rw [hstored, ← hsum, totalOf_set hi]
  grind

/-! ## Stacks that are found damaged -/

/-- The report of an operation that ends the process for the given problems: it names the
operation and the problems, and shows how many elements there are, the capacity and the stored
checksum. -/
def reportOf (t : GuardedStack α) (operation : String) (problems : List Problem) : Abort where
  operation := operation
  size := t.toList.length
  capacity := t.capacity
  checksum := t.checksum
  problems := problems

omit [Guarded α] in
/-- An operation that ends the process reports the stack as it is. -/
theorem abort_eq (t : GuardedStack α) (operation : String) (problems : List Problem) :
    t.abort operation problems = t.reportOf operation problems := by
  rw [abort, size_eq]
  rfl

/-- Every operation that may change the stack ends the process for the given problems, and the
report shows the stack as it is. -/
structure Refuses (t : GuardedStack α) (problems : List Problem) : Prop where
  push : ∀ a, t.push a = .error (t.reportOf "push" problems)
  tryPop : t.tryPop = .error (t.reportOf "pop" problems)
  pop : t.pop = .error (t.reportOf "pop" problems)
  set : ∀ i a, t.set i a = .error (t.reportOf "set" problems)
  truncate : ∀ length, t.truncate length = .error (t.reportOf "truncate" problems)
  take : t.take = .error (t.reportOf "take" problems)
  clone : t.clone = .error (t.reportOf "clone" problems)

/-- Each operation fails at its first check. -/
theorem refuses_of_faults (hfaults : t.faults ≠ []) : t.Refuses (t.faults.map .fault) := by
  have hcheck (operation : String) :
      t.check operation = .error (t.reportOf operation (t.faults.map .fault)) := by
    obtain ⟨f, fs, hcons⟩ := List.exists_cons_of_ne_nil hfaults
    rw [check, hcons, ← abort_eq]
  have hguarded (operation : String) (changed : GuardedStack α) :
      t.guarded operation changed =
        .error (t.reportOf operation (t.faults.map .fault)) := by
    rw [guarded, hcheck]
    rfl
  have hpop : t.tryPop = .error (t.reportOf "pop" (t.faults.map .fault)) := by
    unfold tryPop
    split
    · rw [hcheck]
      rfl
    · rw [hguarded]
      rfl
  refine ⟨fun a => hguarded _ _, hpop, ?_, fun i a => ?_, fun length => hguarded _ _, ?_, ?_⟩
  · rw [pop, hpop]
    rfl
  · unfold set
    split
    · rw [hcheck]
      rfl
    · rw [hguarded]
      rfl
  · rw [take, hcheck]
    rfl
  · rw [clone, hcheck]
    rfl

/-! ## Stacks that are not -/

/-- Removing the top element of a stack is what it is for a list, and fatal without one. -/
structure PopsAsList (t : GuardedStack α) : Prop where
  of_append : ∀ as a, t.toList = as ++ [a] →
    ∃ t', t.pop = .ok (a, t') ∧ t.tryPop = .ok (some a, t') ∧ t'.toList = as
  of_nil : t.toList = [] → t.pop = .error (t.reportOf "pop" [.emptyPop])

/-- An intact stack pops as a list does. -/
theorem popsAsList_of_intact (ht : t.Intact) : t.PopsAsList := by
  constructor
  · intro as a hlist
    obtain ⟨t', hpop, _, hrest⟩ := tryPop_of_append ht hlist
    refine ⟨t', ?_, hpop, hrest⟩
    rw [pop, hpop]
    rfl
  · intro hnil
    rw [pop, tryPop_of_nil ht hnil, ← abort_eq]
    rfl

/-- All commands for the stack, for its copies and for what is taken out of them give the
answers and the elements that they give for lists, and the guards stay in order. -/
def Serves (t : GuardedStack α) : Prop :=
  ∀ commands : List (Nat × Command α),
    ∃ answers family, performAll Command.run commands [t] = .ok (answers, family) ∧
      performAll (fun command as => (.ok (command.onList as) : Except Abort _)) commands
        [t.toList] = .ok (answers, family.map toList) ∧
      ∀ u ∈ family, u.verify = none ∧ u.PopsAsList ∧
        u.size = u.toList.length ∧ u.top? = u.toList.getLast? ∧ ∀ i, u.get? i = u.toList[i]?

/-- An intact stack serves as a list. -/
theorem serves_of_intact {c : Nat} (ht : t.Intact) (hc : t.Accounted c) : t.Serves := by
  intro commands
  have hfamily : ∀ u ∈ [t], u.Intact ∧ u.Accounted c := by
    simpa using ⟨ht, hc⟩
  obtain ⟨answers, family, hrun, hlists, hkept⟩ := performAll_of_intact commands hfamily
  refine ⟨answers, family, hrun, hlists, fun u hu => ?_⟩
  have hintact := (hkept u hu).1
  exact ⟨verify_eq_none.mpr hintact, popsAsList_of_intact hintact, size_eq u, top?_eq u, get?_eq u⟩

/-! ## Damage to the stacks that are reached -/

/-- What the guards of a stack make of damage: `s` is the stack before it and `t` after it. -/
structure Watches (s t : GuardedStack α) : Prop where
  /-- When the damage is not found. -/
  verify_eq_none_iff : t.verify = none ↔
    t.front = canary ∧ t.back = canary ∧ t.redundant = canary ∧
      byteTotal t.toList ≡ byteTotal s.toList [MOD 2 ^ 64]
  /-- Damage that is found is reported by its first broken guard, and every operation is
  refused for all of them. -/
  refuses : t.verify ≠ none → ∃ first others, brokenGuards s.toList t = first :: others ∧
    t.verify = some (first.fault s.toList t) ∧
    t.Refuses (((first :: others).map (Guard.fault s.toList t)).map .fault) ∧
    SameAccount s t
  /-- Damage that is not found is of no consequence. -/
  serves : t.verify = none → t.Serves

/-- An intact stack watches over all that is done to it by stray writes. -/
theorem watches_of_intact {c : Nat} (hs : s.Intact) (hc : s.Accounted c) (hst : SameAccount s t) :
    Watches s t := by
  refine ⟨verify_eq_none_iff hs hst, fun hfound => ?_, fun hok => ?_⟩
  · have hne : t.faults ≠ [] := fun hnil => hfound (verify_eq_none.mpr hnil)
    have hrefuses := refuses_of_faults hne
    have hfaults := faults_eq hs hst
    rw [hfaults, Ne, List.map_eq_nil_iff] at hne
    obtain ⟨first, others, hcons⟩ := List.exists_cons_of_ne_nil hne
    rw [hcons] at hfaults
    rw [hfaults] at hrefuses
    refine ⟨first, others, hcons, ?_, hrefuses, hst⟩
    rw [verify, hfaults]
    rfl
  · exact serves_of_intact (verify_eq_none.mp hok) (hst.accounted hc)

/-- Whatever commands lead to a stack, and whatever stray writes follow: the damage is found
exactly if a sentinel differs or the sum of the bytes has changed, a single element exactly if
its own sum has.  The first broken guard is reported, every operation is refused for all of
them before it changes anything, and a stack whose damage is not found behaves as a list of
the elements it now has. -/
theorem damage_detected (c : Nat) (commands : List (Nat × Command α)) :
    ∃ answers family, performAll Command.run commands [empty c] = .ok (answers, family) ∧
      ∀ s ∈ family, (∀ damages, Watches s (s.damaged damages)) ∧
        ∀ (i : Nat) (old a : α), s.toList[i]? = some old →
          ((s.overwriteItem i a).verify = none ↔ byteSum a = byteSum old) := by
  have hstart : ∀ s ∈ [(empty c : GuardedStack α)], s.Intact ∧ s.Accounted c := by
    simpa using ⟨intact_empty c, accounted_empty c⟩
  obtain ⟨answers, family, hrun, _, hfamily⟩ := performAll_of_intact commands hstart
  refine ⟨answers, family, hrun, fun s hs => ?_⟩
  obtain ⟨hintact, hc⟩ := hfamily s hs
  constructor
  · intro damages
    exact watches_of_intact hintact hc (sameAccount_damaged s damages)
  · intro i old a hold
    exact verify_overwriteItem hintact hold a

end StackMachine.GuardedStack
