import Mathlib.Data.Rat.Cast.Order
import Mathlib.Tactic.Ring
import StackMachine.Proofs.Double.Exact

/-!
# The numbers that doubles are

A finite double is a rational number, given by its sign, exponent and fraction as the IEEE
754 standard lays it down.  An index is a double that is a natural number of at most two to
the 53rd in this sense; both zeros are the number zero, so both are the index zero.

Main results:

- Theorem `value_eq`: the number of a double is its units, with its sign, over the units of
  one.
- Theorem `index?_eq_some_iff`: which doubles denote an index.
- Theorem `index?_eq_none_iff`: which doubles denote none.
- Theorem `indices_faithful`: natural numbers and the doubles that denote them.
-/

namespace StackMachine.Double

/-- The number of a magnitude word, in the formula of the standard: without a leading one if
the exponent field is zero, and with it otherwise. -/
def magnitudeValue (magnitude : Nat) : ℚ :=
  let exponent := magnitude / exponentWeight
  let fraction := magnitude % exponentWeight
  if exponent = 0 then fraction * 2 ^ (-1074 : ℤ)
  else (exponentWeight + fraction) * 2 ^ (exponent - 1075 : ℤ)

/-- The number that a finite double is. -/
def value (v : Double) : ℚ :=
  if v.negative then -magnitudeValue v.magnitude else magnitudeValue v.magnitude

/-- A double is the given natural number, and all natural numbers up to it are doubles. -/
structure Denotes (v : Double) (n : Nat) : Prop where
  finite : v.isFinite = true
  value_eq : v.value = n
  le : n ≤ 2 ^ 53

/-! ## Units -/

theorem cast_oneUnits : (oneUnits : ℚ) = 2 ^ (1074 : ℤ) := by
  rw [oneUnits_eq, Nat.cast_pow, Nat.cast_ofNat]
  exact (zpow_natCast (2 : ℚ) 1074).symm

theorem cast_oneUnits_pos : (0 : ℚ) < oneUnits := Nat.cast_pos.mpr oneUnits_pos

/-- The value of a magnitude is the number of its units, over that of one. -/
theorem magnitudeValue_eq (magnitude : Nat) :
    magnitudeValue magnitude = unitsOf magnitude / oneUnits := by
  unfold magnitudeValue unitsOf
  dsimp only
  rw [cast_oneUnits]
  split
  · rw [zpow_neg, div_eq_mul_inv]
  · rename_i hexponent
    rcases Nat.exists_eq_succ_of_ne_zero hexponent with ⟨k, hk⟩
    have hshift : ((k + 1 : ℕ) : ℤ) - 1075 = (k : ℤ) - 1074 := by
      push_cast
      ring
    rw [hk, Nat.succ_eq_add_one, hshift, Nat.add_sub_cancel, Nat.shiftLeft_eq,
      zpow_sub₀ two_ne_zero, zpow_natCast, mul_div_assoc']
    simp only [Nat.cast_mul, Nat.cast_add, Nat.cast_pow, Nat.cast_ofNat]

/-- Only the magnitude zero has no units. -/
theorem unitsOf_eq_zero {magnitude : Nat} : unitsOf magnitude = 0 ↔ magnitude = 0 := by
  constructor
  · intro hzero
    unfold unitsOf at hzero
    dsimp only at hzero
    split at hzero
    · rename_i hexponent
      have hsplit := Nat.div_add_mod magnitude exponentWeight
      rw [hexponent, hzero] at hsplit
      exact hsplit.symm
    · rw [Nat.shiftLeft_eq] at hzero
      have hpos : 0 < (exponentWeight + magnitude % exponentWeight) *
          2 ^ (magnitude / exponentWeight - 1) :=
        Nat.mul_pos (Nat.add_pos_left (by decide) _) (Nat.two_pow_pos _)
      omega
  · rintro rfl
    rfl

/-- The number of a double is its units, with its sign, over the units of one. -/
theorem value_eq (v : Double) :
    v.value = (if v.negative then -(v.units : ℚ) else v.units) / oneUnits := by
  rw [value, magnitudeValue_eq, units]
  split
  · rw [neg_div]
  · rfl

/-! ## Indices -/

/-- A double is a natural number exactly if it counts the units of that number, and has no
sign unless it is a zero. -/
theorem value_eq_natCast {v : Double} {n : Nat} :
    v.value = n ↔ (v.negative = false ∨ v.magnitude = 0) ∧ v.units = n * oneUnits := by
  have hone := cast_oneUnits_pos
  rw [value_eq, div_eq_iff hone.ne', ← Nat.cast_mul]
  cases hneg : v.negative with
  | false => simp only [Bool.false_eq_true, if_false, true_or, true_and, Nat.cast_inj]
  | true =>
    simp only [if_true, Bool.true_eq_false, false_or]
    constructor
    · intro hvalue
      have hsum : ((v.units + n * oneUnits : ℕ) : ℚ) = 0 := by
        rw [Nat.cast_add, ← hvalue, add_neg_cancel]
      have hboth := Nat.add_eq_zero_iff.mp (Nat.cast_eq_zero.mp hsum)
      exact ⟨unitsOf_eq_zero.mp hboth.1, hboth.1.trans hboth.2.symm⟩
    · rintro ⟨hmagnitude, hunits⟩
      have hzero : v.units = 0 := unitsOf_eq_zero.mpr hmagnitude
      rw [← hunits, hzero, Nat.cast_zero, neg_zero]

/-- Which doubles denote an index. -/
theorem index?_eq_some_iff {v : Double} {n : Nat} : v.index? = some n ↔ v.Denotes n := by
  constructor
  · intro hindex
    obtain ⟨hfinite, hsign, hunits, hle⟩ := index?_eq_some hindex
    exact ⟨hfinite, value_eq_natCast.mpr ⟨hsign, hunits⟩, hle⟩
  · rintro ⟨hfinite, hvalue, hle⟩
    obtain ⟨hsign, hunits⟩ := value_eq_natCast.mp hvalue
    have hle' : n ≤ maxIndex := hle
    have hsign' : (!v.negative || v.magnitude == 0) = true := by simpa using hsign
    simp [index?, toNat?, hfinite, hsign', hunits, oneUnits_pos, hle']

/-- A double is finite, infinite or not a number. -/
theorem isFinite_eq_false_iff {v : Double} :
    v.isFinite = false ↔ v.isNaN = true ∨ v.isInfinite = true := by
  simp only [isFinite, isNaN, isInfinite, decide_eq_false_iff_not, decide_eq_true_eq, beq_iff_eq]
  omega

/-- A finite double denotes no index exactly if it is negative, a fraction or too great. -/
theorem index?_eq_none_of_isFinite {v : Double} (hfinite : v.isFinite = true) :
    v.index? = none ↔ v.value < 0 ∨ (¬ ∃ k : ℤ, v.value = k) ∨ 2 ^ 53 < v.value := by
  rw [Option.eq_none_iff_forall_ne_some]
  constructor
  · intro hnone
    by_contra hother
    push Not at hother
    obtain ⟨hpos, ⟨k, hk⟩, hle⟩ := hother
    rw [hk] at hpos hle
    lift k to ℕ using (by exact_mod_cast hpos)
    rw [Int.cast_natCast] at hk hle
    exact hnone k (index?_eq_some_iff.mpr ⟨hfinite, hk, by exact_mod_cast hle⟩)
  · intro hother n hindex
    obtain ⟨_, hvalue, hle⟩ := index?_eq_some_iff.mp hindex
    rw [hvalue] at hother
    rcases hother with hneg | hfraction | hgreat
    · exact absurd (Nat.cast_nonneg n) (not_le.mpr hneg)
    · exact hfraction ⟨n, (Int.cast_natCast n).symm⟩
    · exact absurd hle (not_le.mpr (by exact_mod_cast hgreat))

/-- Which doubles denote no index. -/
theorem index?_eq_none_iff {v : Double} :
    v.index? = none ↔ v.isNaN = true ∨ v.isInfinite = true ∨
      v.isFinite = true ∧ (v.value < 0 ∨ (¬ ∃ k : ℤ, v.value = k) ∨ 2 ^ 53 < v.value) := by
  rw [← or_assoc, ← isFinite_eq_false_iff]
  cases hfinite : v.isFinite with
  | true => simpa using index?_eq_none_of_isFinite hfinite
  | false => simp [index?, toNat?, hfinite]

/-- The double of a natural number up to two to the 53rd has its value. -/
theorem denotes_ofNat {n : Nat} (hn : n ≤ 2 ^ 53) : (ofNat n).Denotes n :=
  index?_eq_some_iff.mp (index?_ofNat hn)

/-- Two doubles that denote the same index are the same but for the sign of zero. -/
theorem eq_or_zeros_of_index? {v w : Double} {n : Nat} (hv : v.index? = some n)
    (hw : w.index? = some n) :
    v = w ∨ v = zero ∧ w = negativeZero ∨ v = negativeZero ∧ w = zero := by
  have hzero : ofNat 0 = zero := by decide +kernel
  rcases eq_of_index? hv with hv' | ⟨hv', rfl⟩ <;> rcases eq_of_index? hw with hw' | ⟨hw', hn⟩
  · exact .inl (hv'.trans hw'.symm)
  · rw [hn, hzero] at hv'
    exact .inr (.inl ⟨hv', hw'⟩)
  · rw [hzero] at hw'
    exact .inr (.inr ⟨hv', hw'⟩)
  · exact .inl (hv'.trans hw'.symm)

/-- Doubles carry indices faithfully.  The double of a natural number of at most two to the
53rd is that number and denotes it.  A double that denotes an index is the double of the index
or the negative zero, and the others are what is not a number, infinite, negative, a fraction
or greater.  So two doubles with one index differ at most in the sign of zero. -/
theorem indices_faithful :
    (∀ n ≤ 2 ^ 53, (ofNat n).isFinite = true ∧ (ofNat n).value = n ∧
      (ofNat n).index? = some n) ∧
    (∀ v n, index? v = some n → n ≤ 2 ^ 53 ∧ (v = ofNat n ∨ v = negativeZero ∧ n = 0)) ∧
    (∀ v, index? v = none ↔ v.isNaN = true ∨ v.isInfinite = true ∨
      v.isFinite = true ∧ (v.value < 0 ∨ (¬ ∃ k : ℤ, v.value = k) ∨ 2 ^ 53 < v.value)) ∧
    ∀ v w n, index? v = some n → index? w = some n →
      v = w ∨ v = zero ∧ w = negativeZero ∨ v = negativeZero ∧ w = zero := by
  refine ⟨fun n hn => ?_, fun v n hindex => ?_, fun v => index?_eq_none_iff,
    fun v w n => eq_or_zeros_of_index?⟩
  · have hdenotes := denotes_ofNat hn
    exact ⟨hdenotes.finite, hdenotes.value_eq, index?_ofNat hn⟩
  · exact ⟨index?_le hindex, eq_of_index? hindex⟩

/-- The greatest index and the negative zero. -/
theorem indices_faithful_edges :
    (2 ^ 53 ≤ 2 ^ 53 ∧ (ofNat (2 ^ 53)).value = (2 ^ 53 : ℕ) ∧
      (ofNat (2 ^ 53)).index? = some (2 ^ 53)) ∧
    index? ⟨0x8000000000000000⟩ = some 0 ∧
      ((⟨0x8000000000000000⟩ : Double) = ofNat 0 ∨
        (⟨0x8000000000000000⟩ : Double) = negativeZero ∧ 0 = 0) := by
  have hzero : index? ⟨0x8000000000000000⟩ = some 0 := by decide +kernel
  obtain ⟨_, hvalue, hmax⟩ := indices_faithful.1 (2 ^ 53) (Nat.le_refl _)
  exact ⟨⟨Nat.le_refl _, hvalue, hmax⟩, hzero, (indices_faithful.2.1 _ _ hzero).2⟩

end StackMachine.Double
