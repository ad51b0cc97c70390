import Mathlib.Data.List.Forall2

/-!
# Computations that may fail

When a sequence of fallible steps succeeds, each step has.  The checks and the translations
of this library are such sequences: bound one after the other, mapped over a list, or run
over a list for their success alone.

Main results:

- Theorem `bind_eq_ok`: two steps succeed exactly when both do.
- Theorem `mapM_eq_ok`: a translation of a list succeeds exactly when that of each element
  does.
- Theorem `forM_eq_ok`: a list passes a check exactly when each element does.
- Theorem `forM_eq_error`: a list fails a check with the error of the first element that
  does.
- Theorem `mapM_eq_error`: a translation of a list fails with the error of one of its elements.
- Theorems `Both.bind`, `both_mapM`: when two computations succeed or fail together.
-/

namespace StackMachine.Fallible

variable {ε ε' α β : Type}

@[simp] theorem pure_eq_ok {a b : α} : (pure a : Except ε α) = .ok b ↔ a = b := by
  simp [pure, Except.pure]

@[simp] theorem throw_ne_ok {e : ε} {a : α} : (throw e : Except ε α) ≠ .ok a := by
  simp [throw, throwThe, MonadExceptOf.throw]

/-- Two computations in a row succeed exactly when the first does and the second does with its
result. -/
theorem bind_eq_ok {x : Except ε α} {f : α → Except ε β} {b : β} :
    (x >>= f) = .ok b ↔ ∃ a, x = .ok a ∧ f a = .ok b := by
  cases x <;> simp [bind, Except.bind]

/-- A guarded step succeeds exactly when its guard holds and it does. -/
theorem guard_eq_ok {c : Prop} [Decidable c] {x : Except ε α} {e : ε} {a : α} :
    (if c then x else throw e) = .ok a ↔ c ∧ x = .ok a := by
  by_cases hc : c
  · simp only [hc, if_true, true_and]
  · simp [hc]

theorem map_eq_ok {x : Except ε α} {f : α → β} {b : β} :
    f <$> x = .ok b ↔ ∃ a, x = .ok a ∧ f a = b := by
  cases x <;> simp [Functor.map, Except.map]

@[simp] theorem mapError_eq_ok {x : Except ε α} {f : ε → ε'} {a : α} :
    x.mapError f = .ok a ↔ x = .ok a := by
  cases x <;> simp [Except.mapError]

theorem toOption_eq_some {x : Except ε α} {a : α} : x.toOption = some a ↔ x = .ok a := by
  cases x <;> simp [Except.toOption]

theorem discard_eq_ok {x : Except ε α} : discard x = .ok () ↔ ∃ a, x = .ok a := by
  cases x <;> simp [discard, Functor.mapConst, Except.map]

/-- A translation of a list succeeds exactly when that of each element does. -/
theorem mapM_eq_ok {f : α → Except ε β} {as : List α} {bs : List β} :
    as.mapM f = .ok bs ↔ List.Forall₂ (fun a b => f a = .ok b) as bs := by
  induction as generalizing bs with
  | nil =>
    rw [List.mapM_nil, pure_eq_ok, List.forall₂_nil_left_iff]
    exact eq_comm
  | cons a as ih =>
    simp only [List.mapM_cons, bind_eq_ok, pure_eq_ok, ih, List.forall₂_cons_left_iff]
    constructor
    · rintro ⟨b, hb, bs', hbs', rfl⟩
      exact ⟨b, bs', hb, hbs', rfl⟩
    · rintro ⟨b, bs', hb, hbs', rfl⟩
      exact ⟨b, hb, bs', hbs', rfl⟩

/-- There is a list that is related element by element exactly when there is a related element for
each. -/
theorem exists_forall₂_iff {R : α → β → Prop} {as : List α} :
    (∃ bs, List.Forall₂ R as bs) ↔ ∀ a ∈ as, ∃ b, R a b := by
  induction as with
  | nil => simp
  | cons a as ih =>
    rw [List.forall_mem_cons, ← ih]
    simp only [List.forall₂_cons_left_iff]
    constructor
    · rintro ⟨_, b, bs, hb, hbs, _⟩
      exact ⟨⟨b, hb⟩, bs, hbs⟩
    · rintro ⟨⟨b, hb⟩, bs, hbs⟩
      exact ⟨_, b, bs, hb, hbs, rfl⟩

/-- A computation that succeeds for each element succeeds for the list. -/
theorem mapM_of_forall {f : α → Except ε β} {g : α → β} {as : List α}
    (hf : ∀ a ∈ as, f a = .ok (g a)) : as.mapM f = .ok (as.map g) := by
  rw [mapM_eq_ok, List.forall₂_map_right_iff, List.forall₂_same]
  exact hf

/-- A list passes a check exactly when each element does. -/
theorem forM_eq_ok {f : α → Except ε Unit} {as : List α} :
    as.forM f = .ok () ↔ ∀ a ∈ as, f a = .ok () := by
  induction as with
  | nil => simp [List.forM]
  | cons a as ih =>
    have hforM : List.forM (a :: as) f = (f a >>= fun _ => as.forM f) := rfl
    rw [hforM, bind_eq_ok, List.forall_mem_cons, ih]
    exact ⟨fun ⟨_, ha, has⟩ => ⟨ha, has⟩, fun ⟨ha, has⟩ => ⟨(), ha, has⟩⟩

/-- Two computations in a row fail exactly when the first does, or the second does with its result.
-/
theorem bind_eq_error {x : Except ε α} {f : α → Except ε β} {e : ε} :
    (x >>= f) = .error e ↔ x = .error e ∨ ∃ a, x = .ok a ∧ f a = .error e := by
  cases x <;> simp [bind, Except.bind]

@[simp] theorem pure_ne_error {a : α} {e : ε} : (pure a : Except ε α) ≠ .error e := by
  simp [pure, Except.pure]

theorem mapError_eq_error {x : Except ε α} {f : ε → ε'} {e : ε'} :
    x.mapError f = .error e ↔ ∃ e', x = .error e' ∧ f e' = e := by
  cases x <;> simp [Except.mapError]

theorem discard_eq_error {x : Except ε α} {e : ε} : discard x = .error e ↔ x = .error e := by
  cases x <;> simp [discard, Functor.mapConst, Except.map]

/-- A guard that is all of a step fails with its own error. -/
theorem guard_eq_error {c : Prop} [Decidable c] {a : α} {e e' : ε}
    (he : (if c then pure a else throw e' : Except ε α) = .error e) : e' = e := by
  split at he
  · cases he
  · exact Except.error.inj he

/-- A list fails a check with the error of the first element that does. -/
theorem forM_eq_error {f : α → Except ε Unit} {as : List α} {e : ε} (he : as.forM f = .error e) :
    ∃ earlier a later, as = earlier ++ a :: later ∧ (∀ b ∈ earlier, f b = .ok ()) ∧
      f a = .error e := by
  induction as with
  | nil => cases he
  | cons a as ih =>
    have hforM : List.forM (a :: as) f = (f a >>= fun _ => as.forM f) := rfl
    rcases bind_eq_error.mp (hforM ▸ he) with ha | ⟨_, ha, has⟩
    · exact ⟨[], a, as, rfl, by simp, ha⟩
    · rcases ih has with ⟨earlier, b, later, rfl, hearlier, hb⟩
      refine ⟨a :: earlier, b, later, rfl, ?_, hb⟩
      rw [List.forall_mem_cons]
      exact ⟨ha, hearlier⟩

/-- A translation of a list fails with the error of one of its elements. -/
theorem mapM_eq_error {f : α → Except ε β} {as : List α} {e : ε} (he : as.mapM f = .error e) :
    ∃ a ∈ as, f a = .error e := by
  induction as with
  | nil => simp at he
  | cons a as ih =>
    rw [List.mapM_cons] at he
    rcases bind_eq_error.mp he with ha | ⟨b, _, hrest⟩
    · exact ⟨a, List.mem_cons_self, ha⟩
    · rcases bind_eq_error.mp hrest with has | ⟨bs, _, hpure⟩
      · obtain ⟨a', ha', hfails⟩ := ih has
        exact ⟨a', List.mem_cons_of_mem _ ha', hfails⟩
      · simp at hpure

/-- Where an element stands in the second of two related lists, one stands in the first. -/
theorem split_of_forall₂ {R : α → β → Prop} {as : List α} {earlier later : List β} {b : β}
    (hR : List.Forall₂ R as (earlier ++ b :: later)) :
    ∃ earlier' a later', as = earlier' ++ a :: later' ∧ R a b ∧
      List.Forall₂ R later' later := by
  induction earlier generalizing as with
  | nil =>
    rcases List.forall₂_cons_right_iff.mp hR with ⟨a, as', ha, has, rfl⟩
    exact ⟨[], a, as', rfl, ha, has⟩
  | cons b' earlier ih =>
    rcases List.forall₂_cons_right_iff.mp hR with ⟨a', as', _, has, rfl⟩
    rcases ih has with ⟨earlier', a, later', rfl, ha, hlater⟩
    exact ⟨a' :: earlier', a, later', rfl, ha, hlater⟩

/-- What has a place in the second of two related lists is related to what has it in the
first. -/
theorem getElem?_of_forall₂ {R : α → β → Prop} {as : List α} {bs : List β}
    (hR : List.Forall₂ R as bs) {i : Nat} {b : β} (hb : bs[i]? = some b) :
    ∃ a, as[i]? = some a ∧ R a b := by
  rcases List.getElem?_eq_some_iff.mp hb with ⟨hlt, rfl⟩
  have hlt' : i < as.length := hR.length_eq ▸ hlt
  exact ⟨as[i], List.getElem?_eq_getElem hlt', hR.get hlt' hlt⟩

/-! ## Two computations -/

/-- Two computations that succeed with related results, or both fail. -/
inductive Both (R : α → β → Prop) : Except ε α → Except ε' β → Prop where
  | ok {a : α} {b : β} (h : R a b) : Both R (.ok a) (.ok b)
  | error (e : ε) (e' : ε') : Both R (.error e) (.error e')

section Both

variable {γ δ ε₁ ε₁' : Type} {R : α → β → Prop} {S : γ → δ → Prop}

theorem Both.refl (x : Except ε α) : Both Eq x x := by
  cases x with
  | ok a => exact .ok rfl
  | error e => exact .error e e

/-- Computations that end alike with equal results have the same results. -/
theorem Both.ok_iff {x : Except ε α} {y : Except ε' α} (h : Both Eq x y) {a : α} :
    x = .ok a ↔ y = .ok a := by
  cases h with
  | ok h => rw [h, Except.ok.injEq, Except.ok.injEq]
  | error e e' => simp

/-- Two computations that do not succeed fail together. -/
theorem both_error_of_not_ok {x : Except ε α} {y : Except ε' β} (hx : ∀ a, x ≠ .ok a)
    (hy : ∀ b, y ≠ .ok b) : Both R x y := by
  cases x with
  | ok a => exact absurd rfl (hx a)
  | error e =>
    cases y with
    | ok b => exact absurd rfl (hy b)
    | error e' => exact .error e e'

/-- Two sequences succeed together if their first steps do, and then the others do. -/
theorem Both.bind {x : Except ε α} {y : Except ε' β} {f : α → Except ε γ} {g : β → Except ε' δ}
    (h : Both R x y) (hrest : ∀ a b, R a b → Both S (f a) (g b)) : Both S (x >>= f) (y >>= g) := by
  cases h with
  | ok h => exact hrest _ _ h
  | error e e' => exact .error e e'

/-- How errors are mapped does not matter for whether computations end alike. -/
theorem Both.mapError {x : Except ε α} {y : Except ε' β} (h : Both R x y) (f : ε → ε₁)
    (g : ε' → ε₁') : Both R (x.mapError f) (y.mapError g) := by
  cases h with
  | ok h => exact .ok h
  | error e e' => exact .error _ _

/-- Two translations of lists succeed together if those of the elements do. -/
theorem both_mapM {f : α → Except ε γ} {g : β → Except ε' γ} {as : List α} {bs : List β}
    (h : List.Forall₂ (fun a b => Both Eq (f a) (g b)) as bs) :
    Both Eq (as.mapM f) (bs.mapM g) := by
  induction h with
  | nil => exact .ok rfl
  | cons hab _ ih =>
    rw [List.mapM_cons, List.mapM_cons]
    refine hab.bind ?_
    rintro c _ rfl
    refine ih.bind ?_
    rintro cs _ rfl
    exact .ok rfl

/-- Where the first computations of two lists succeed, the others do, with the results that the
relation gives. -/
theorem eq_of_forall₂_both {f : α → β} {as : List α} {ys : List (Except ε' β)}
    (h : List.Forall₂ (Both fun a b => b = f a) (as.map (.ok : α → Except ε α)) ys) :
    ys = (as.map f).map .ok := by
  rw [List.forall₂_map_left_iff] at h
  induction h with
  | nil => rfl
  | cons hab _ ih =>
    cases hab with
    | ok hab => rw [ih, hab, List.map_cons, List.map_cons]

end Both

end StackMachine.Fallible
