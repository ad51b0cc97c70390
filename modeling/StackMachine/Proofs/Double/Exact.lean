import Mathlib.Tactic.Ring
import StackMachine.Double.Nearest

/-!
# Exact doubles

A double that counts a whole number of units is its own nearest double, and every
natural number up to two to the 53rd is a double.  Operands carry offsets, slots and
addresses as such numbers, so what an index means and which doubles denote it is
settled here once.

Main results:

- Theorem `nearestWord_unitsOf`: rounding the exact value of a finite double gives that
  double again.
- Theorem `nearestWord_mul_left`: rounding depends on the value of a quotient only.
- Theorem `index?_ofNat`: the double of a small natural number denotes it.
- Theorem `eq_of_index?`: an index has one double, apart from the sign of zero.
- Theorem `index?_ofNat_eq`: which index the double nearest to any natural number denotes.
-/

namespace StackMachine.Double

/-! ## Sign and magnitude -/

theorem toNat_bits_lt (v : Double) : v.bits.toNat < 2 * signWeight :=
  v.bits.toNat_lt

theorem magnitude_lt (v : Double) : v.magnitude < signWeight :=
  Nat.mod_lt _ (by decide)

/-- The word of a double is its magnitude with the weight of its sign. -/
theorem toNat_bits (v : Double) :
    v.bits.toNat = v.magnitude + if v.negative then signWeight else 0 := by
  have hlt := v.toNat_bits_lt
  by_cases hneg : signWeight ≤ v.bits.toNat
  · have hrest : v.bits.toNat - signWeight < signWeight := by omega
    simp only [magnitude, negative, hneg, decide_true, if_true, Nat.mod_eq_sub_mod hneg,
      Nat.mod_eq_of_lt hrest]
    omega
  · simp [magnitude, negative, hneg, Nat.mod_eq_of_lt (Nat.lt_of_not_le hneg)]

/-- Doubles are equal when their signs and magnitudes are. -/
theorem eq_of_magnitude {v w : Double} (hneg : v.negative = w.negative)
    (hmag : v.magnitude = w.magnitude) : v = w := by
  apply Double.ext
  apply UInt64.toNat_inj.mp
  rw [toNat_bits v, toNat_bits w, hneg, hmag]

section OfMagnitude

variable {magnitude : Nat} (hlt : magnitude < signWeight) (sign : Bool)
include hlt

/-- The word with a magnitude and a sign is their sum. -/
theorem toNat_bits_ofMagnitude :
    (ofMagnitude sign magnitude).bits.toNat =
      magnitude + if sign then signWeight else 0 := by
  apply UInt64.toNat_ofNat_of_lt'
  cases sign <;> simp [signWeight, UInt64.size] at hlt ⊢ <;> omega

@[simp] theorem negative_ofMagnitude : (ofMagnitude sign magnitude).negative = sign := by
  unfold negative
  rw [toNat_bits_ofMagnitude hlt]
  cases sign <;> simp [hlt]

@[simp] theorem magnitude_ofMagnitude :
    (ofMagnitude sign magnitude).magnitude = magnitude := by
  unfold Double.magnitude
  rw [toNat_bits_ofMagnitude hlt]
  cases sign <;> simp [Nat.mod_eq_of_lt hlt]

end OfMagnitude

/-- A double is made of its sign and its magnitude. -/
theorem ofMagnitude_self (v : Double) : ofMagnitude v.negative v.magnitude = v :=
  eq_of_magnitude (negative_ofMagnitude v.magnitude_lt _)
    (magnitude_ofMagnitude v.magnitude_lt _)

/-! ## Division to the nearest -/

/-- A division without a remainder needs no rounding. -/
theorem divHalfEven_mul_right (n : Nat) {den : Nat} (hden : 0 < den) :
    divHalfEven (n * den) den = n := by
  unfold divHalfEven
  simp [Nat.mul_div_cancel n hden, hden]

/-- A common factor does not change how a quotient is rounded. -/
theorem divHalfEven_mul_left {k : Nat} (hk : 0 < k) (num den : Nat) :
    divHalfEven (k * num) (k * den) = divHalfEven num den := by
  unfold divHalfEven
  rw [Nat.mul_div_mul_left _ _ hk, Nat.mul_mod_mul_left]
  have hscale : 2 * (k * (num % den)) = k * (2 * (num % den)) := by ring
  simp only [hscale, Nat.mul_lt_mul_left hk]

/-- Rounding depends on the value of a quotient only. -/
theorem nearestWord_mul_left {k : Nat} (hk : 0 < k) (num den : Nat) :
    nearestWord (k * num) (k * den) = nearestWord num den := by
  unfold nearestWord
  simp only [Nat.mul_div_mul_left _ _ hk, Nat.shiftLeft_eq, Nat.mul_assoc,
    divHalfEven_mul_left hk]

theorem nearestWord_mul_right {k : Nat} (hk : 0 < k) (num den : Nat) :
    nearestWord (num * k) (den * k) = nearestWord num den := by
  rw [Nat.mul_comm num, Nat.mul_comm den, nearestWord_mul_left hk]

/-- No number has a greater word than infinity. -/
theorem nearestWord_le (num den : Nat) : nearestWord num den ≤ infinityWord :=
  Nat.min_le_right _ _

/-- A number of units that the shift divides is rounded to its quotient. -/
theorem nearestWord_of_dvd {u : Nat} (hdvd : 2 ^ (u.log2 - 52) ∣ u) :
    nearestWord u 1 =
      min ((u.log2 - 52) * exponentWeight + u / 2 ^ (u.log2 - 52)) infinityWord := by
  obtain ⟨q, hq⟩ := hdvd
  have hpos : 0 < 2 ^ (u.log2 - 52) := Nat.two_pow_pos _
  unfold nearestWord
  simp only [Nat.div_one, Nat.shiftLeft_eq, Nat.one_mul]
  congr 2
  generalize u.log2 - 52 = s at hq hpos
  rw [hq, Nat.mul_div_cancel_left q hpos, Nat.mul_comm, divHalfEven_mul_right q hpos]

/-! ## Units -/

theorem exponentWeight_eq : exponentWeight = 2 ^ 52 := rfl

/-- The least positive double is two to the power of -1074. -/
theorem oneUnits_eq : oneUnits = 2 ^ 1074 := by
  delta oneUnits
  generalize 1074 = k
  rfl

theorem oneUnits_pos : 0 < oneUnits := by
  rw [oneUnits_eq]
  generalize 1074 = k
  exact Nat.two_pow_pos k

/-- The units of a word whose exponent field is not zero. -/
theorem unitsOf_normal {e f : Nat} (hf : f < exponentWeight) :
    unitsOf ((e + 1) * exponentWeight + f) = (exponentWeight + f) * 2 ^ e := by
  have hdiv : ((e + 1) * exponentWeight + f) / exponentWeight = e + 1 := by
    rw [Nat.mul_comm, Nat.mul_add_div (by decide), Nat.div_eq_of_lt hf, Nat.add_zero]
  have hmod : ((e + 1) * exponentWeight + f) % exponentWeight = f := by
    rw [Nat.mul_comm, Nat.mul_add_mod, Nat.mod_eq_of_lt hf]
  simp [unitsOf, hdiv, hmod, Nat.shiftLeft_eq]

/-- A magnitude without an exponent counts units itself. -/
theorem unitsOf_subnormal {f : Nat} (hf : f < exponentWeight) : unitsOf f = f := by
  simp [unitsOf, Nat.div_eq_of_lt hf, Nat.mod_eq_of_lt hf]

/-- Fewer units than the leading one of a fraction counts need no shift. -/
theorem log2_subnormal {f : Nat} (hf : f < exponentWeight) : f.log2 - 52 = 0 := by
  by_cases hzero : f = 0
  · simp [hzero]
  · rw [exponentWeight_eq] at hf
    have := (Nat.log2_lt hzero).mpr hf
    omega

/-- The leading one of a word's fraction fixes the logarithm of its units. -/
theorem log2_normal {e f : Nat} (hf : f < exponentWeight) :
    ((exponentWeight + f) * 2 ^ e).log2 = 52 + e := by
  have hpos : 0 < 2 ^ e := Nat.two_pow_pos e
  rw [exponentWeight_eq] at hf ⊢
  rw [Nat.log2_eq_iff (Nat.mul_ne_zero (by omega) (by omega))]
  rw [show 52 + e + 1 = 53 + e by ring, pow_add, pow_add]
  exact ⟨Nat.mul_le_mul_right _ (by omega), (Nat.mul_lt_mul_right hpos).mpr (by omega)⟩

/-- Rounding the exact value of a finite double gives that double again. -/
theorem nearestWord_unitsOf {w : Nat} (hw : w < infinityWord) :
    nearestWord (unitsOf w) 1 = w := by
  obtain ⟨e, f, hf, rfl⟩ : ∃ e f, f < exponentWeight ∧ w = e * exponentWeight + f :=
    ⟨w / exponentWeight, w % exponentWeight, Nat.mod_lt _ (by decide),
      by rw [Nat.mul_comm]; exact (Nat.div_add_mod _ _).symm⟩
  cases e with
  | zero =>
    rw [Nat.zero_mul, Nat.zero_add] at hw ⊢
    have hlog := log2_subnormal hf
    rw [unitsOf_subnormal hf, nearestWord_of_dvd (by simp [hlog]), hlog]
    simp only [Nat.zero_mul, Nat.zero_add, Nat.pow_zero, Nat.div_one]
    omega
  | succ e =>
    have hpos : 0 < 2 ^ e := Nat.two_pow_pos e
    have hlog : ((exponentWeight + f) * 2 ^ e).log2 - 52 = e := by
      rw [log2_normal hf]
      omega
    rw [unitsOf_normal hf, nearestWord_of_dvd (by rw [hlog]; exact Nat.dvd_mul_left _ _),
      hlog, Nat.mul_div_cancel _ hpos, Nat.min_eq_left]
    · ring
    · have : (e + 1) * exponentWeight = e * exponentWeight + exponentWeight := by ring
      omega

/-- A number of units that the shift divides is the exact value of its word. -/
theorem unitsOf_nearestWord {u : Nat} (hdvd : 2 ^ (u.log2 - 52) ∣ u)
    (hfin : nearestWord u 1 < infinityWord) : unitsOf (nearestWord u 1) = u := by
  have hword := nearestWord_of_dvd hdvd
  rw [Nat.min_def] at hword
  split_ifs at hword with hle
  · rw [hword]
    by_cases hsmall : u < exponentWeight
    · simp [log2_subnormal hsmall, unitsOf_subnormal hsmall]
    · have hne : u ≠ 0 := by
        rintro rfl
        exact hsmall (by decide)
      have hlog : 52 ≤ u.log2 := (Nat.le_log2 hne).mpr (Nat.le_of_not_lt hsmall)
      obtain ⟨hlow, hhigh⟩ := (Nat.log2_eq_iff hne).mp rfl
      obtain ⟨q, hq⟩ := hdvd
      generalize hs : u.log2 - 52 = s at hq ⊢
      have hpos : 0 < 2 ^ s := Nat.two_pow_pos s
      rw [show u.log2 = 52 + s by omega, pow_add] at hlow
      rw [show u.log2 + 1 = 53 + s by omega, pow_add] at hhigh
      rw [hq, Nat.mul_comm (2 ^ s) q] at hlow hhigh
      have hqlow := Nat.le_of_mul_le_mul_right hlow hpos
      have hqhigh := Nat.lt_of_mul_lt_mul_right hhigh
      have hfield : s * exponentWeight + q = (s + 1) * exponentWeight + (q - exponentWeight) := by
        rw [exponentWeight_eq, Nat.add_mul]
        omega
      rw [hq, Nat.mul_div_cancel_left q hpos, hfield,
        unitsOf_normal (by rw [exponentWeight_eq]; omega)]
      rw [exponentWeight_eq, Nat.add_sub_cancel' hqlow, Nat.mul_comm]
  · omega

/-! ## Indices -/

/-- A power of two shifts the leading bit of a number. -/
theorem log2_mul_two_pow {n : Nat} (hne : n ≠ 0) (k : Nat) :
    (n * 2 ^ k).log2 = n.log2 + k := by
  have hpos : 0 < 2 ^ k := Nat.two_pow_pos k
  obtain ⟨hlow, hhigh⟩ := (Nat.log2_eq_iff hne).mp rfl
  rw [Nat.log2_eq_iff (Nat.mul_ne_zero hne hpos.ne'), Nat.add_right_comm, pow_add, pow_add _ _ k]
  exact ⟨Nat.mul_le_mul_right _ hlow, (Nat.mul_lt_mul_right hpos).mpr hhigh⟩

theorem log2_mul_oneUnits {n : Nat} (hne : n ≠ 0) : (n * oneUnits).log2 = n.log2 + 1074 := by
  rw [oneUnits_eq, log2_mul_two_pow hne]

/-- The units of a natural number are divisible by their shift. -/
theorem dvd_mul_oneUnits {n : Nat} (hn : n ≤ maxIndex) :
    2 ^ ((n * oneUnits).log2 - 52) ∣ n * oneUnits := by
  by_cases hzero : n = 0
  · simp [hzero]
  · have hlog := log2_mul_oneUnits hzero
    by_cases hmax : n = maxIndex
    · have hlogMax : maxIndex.log2 = 53 := by decide
      rw [hlog, hmax, hlogMax, oneUnits_eq, show maxIndex = 2 ^ 53 from rfl, ← pow_add]
      generalize 1074 = k
      exact Nat.pow_dvd_pow 2 (by omega)
    · have hlt : n.log2 < 53 := (Nat.log2_lt hzero).mpr (by unfold maxIndex at hn hmax; omega)
      have hle : n.log2 + 1074 - 52 ≤ 1074 := by omega
      rw [hlog, oneUnits_eq]
      generalize 1074 = k at hle ⊢
      exact Dvd.dvd.mul_left (Nat.pow_dvd_pow 2 hle) n

/-- The natural numbers that doubles hold exactly are finite doubles. -/
theorem nearestWord_mul_oneUnits_lt {n : Nat} (hn : n ≤ maxIndex) :
    nearestWord (n * oneUnits) 1 < infinityWord := by
  rw [nearestWord_of_dvd (dvd_mul_oneUnits hn)]
  refine Nat.lt_of_le_of_lt (Nat.min_le_left _ _) ?_
  by_cases hzero : n = 0
  · simp [hzero, infinityWord]
  · have hlog := log2_mul_oneUnits hzero
    have hlt : n.log2 < 54 := (Nat.log2_lt hzero).mpr (by unfold maxIndex at hn; omega)
    have hquot : n * oneUnits / 2 ^ (n.log2 + 1074 - 52) ≤ 2 ^ 53 := by
      have hbound := (Nat.lt_log2_self (n := n))
      apply Nat.div_le_of_le_mul
      rw [← pow_add, show n.log2 + 1074 - 52 + 53 = n.log2 + 1 + 1074 by omega, pow_add,
        oneUnits_eq]
      exact Nat.mul_le_mul_right _ hbound.le
    rw [hlog]
    have hshift : (n.log2 + 1074 - 52) * exponentWeight ≤ 1075 * exponentWeight :=
      Nat.mul_le_mul_right _ (by omega)
    unfold infinityWord
    unfold exponentWeight at hshift ⊢
    omega

section OfNat

variable {n : Nat} (hn : n ≤ maxIndex)
include hn

/-- The magnitude of a natural number is the word nearest to it. -/
theorem magnitude_ofNat : (ofNat n).magnitude = nearestWord (n * oneUnits) 1 :=
  magnitude_ofMagnitude ((nearestWord_mul_oneUnits_lt hn).trans (by decide)) false

theorem negative_ofNat : (ofNat n).negative = false :=
  negative_ofMagnitude ((nearestWord_mul_oneUnits_lt hn).trans (by decide)) false

/-- A natural number that a double holds exactly has as many units as it should. -/
theorem units_ofNat : (ofNat n).units = n * oneUnits := by
  rw [units, magnitude_ofNat hn]
  exact unitsOf_nearestWord (dvd_mul_oneUnits hn) (nearestWord_mul_oneUnits_lt hn)

/-- The double of a small natural number denotes it. -/
theorem index?_ofNat : (ofNat n).index? = some n := by
  have hfin : (ofNat n).isFinite = true := by
    simp [isFinite, magnitude_ofNat hn, nearestWord_mul_oneUnits_lt hn]
  simp [index?, toNat?, hfin, negative_ofNat hn, units_ofNat hn, oneUnits_pos, hn]

end OfNat

/-- Negative zero. -/
def negativeZero : Double := ofMagnitude true 0

/-- What it takes for a double to denote an index. -/
theorem index?_eq_some {v : Double} {n : Nat} (hindex : v.index? = some n) :
    v.isFinite = true ∧ (v.negative = false ∨ v.magnitude = 0) ∧
      v.units = n * oneUnits ∧ n ≤ maxIndex := by
  rw [index?, Option.filter_eq_some_iff] at hindex
  obtain ⟨hnat, hle⟩ := hindex
  unfold toNat? at hnat
  split_ifs at hnat with hcond
  simp only [Bool.and_eq_true, Bool.or_eq_true, Bool.not_eq_true', beq_iff_eq] at hcond
  obtain ⟨⟨hfin, hsign⟩, hmod⟩ := hcond
  cases hnat
  exact ⟨hfin, hsign, (Nat.div_mul_cancel (Nat.dvd_of_mod_eq_zero hmod)).symm, by simpa using hle⟩

/-- An index is a number that doubles hold exactly. -/
theorem index?_le {v : Double} {n : Nat} (hindex : v.index? = some n) : n ≤ maxIndex :=
  (index?_eq_some hindex).2.2.2

/-- An index has one double, apart from the sign of zero. -/
theorem eq_of_index? {v : Double} {n : Nat} (hindex : v.index? = some n) :
    v = ofNat n ∨ v = negativeZero ∧ n = 0 := by
  obtain ⟨hfin, hsign, hunits, hn⟩ := index?_eq_some hindex
  have hmag : v.magnitude = (ofNat n).magnitude := by
    rw [magnitude_ofNat hn, ← hunits, units, nearestWord_unitsOf (by simpa [isFinite] using hfin)]
  cases hneg : v.negative with
  | false => exact Or.inl (eq_of_magnitude (by rw [hneg, negative_ofNat hn]) hmag)
  | true =>
    have hzero : v.magnitude = 0 := by simpa [hneg] using hsign
    refine Or.inr ⟨?_, ?_⟩
    · rw [← ofMagnitude_self v, hneg, hzero]
      rfl
    · have : n * oneUnits = 0 := by
        rw [← hunits, units, hzero]
        rfl
      simpa [oneUnits_pos.ne'] using this

/-- The negative zero is not the double of any natural number. -/
theorem negativeZero_ne_ofNat (n : Nat) : negativeZero ≠ ofNat n := by
  intro heq
  have hsign := congrArg negative heq
  have hpositive : (ofNat n).negative = false :=
    negative_ofMagnitude ((nearestWord_le _ _).trans_lt (by decide)) false
  rw [hpositive] at hsign
  exact absurd hsign (by decide)

/-- A double, with the positive zero in place of the negative one. -/
def canonical (v : Double) : Double := if v = negativeZero then zero else v

/-- Only the negative zero has another canonical form. -/
theorem canonical_eq_self {v : Double} : v.canonical = v ↔ v ≠ negativeZero := by
  by_cases hzero : v = negativeZero
  · subst hzero
    decide +kernel
  · simp [canonical, hzero]

/-- A double that denotes an index is the double of it but for the sign of zero. -/
theorem ofNat_eq_canonical {v : Double} {n : Nat} (hindex : v.index? = some n) :
    ofNat n = v.canonical := by
  rcases eq_of_index? hindex with rfl | ⟨rfl, rfl⟩
  · exact (canonical_eq_self.mpr (negativeZero_ne_ofNat n).symm).symm
  · decide +kernel

/-- A double that denotes an index is the double of it unless it is the negative zero. -/
theorem ofNat_eq_iff {v : Double} {n : Nat} (hindex : v.index? = some n) :
    ofNat n = v ↔ v ≠ negativeZero := by
  rw [ofNat_eq_canonical hindex, canonical_eq_self]

theorem isNaN_of_index? {v : Double} {n : Nat} (hindex : v.index? = some n) :
    v.isNaN = false := by
  have hfin := (index?_eq_some hindex).1
  simp only [isFinite, isNaN, decide_eq_true_eq, decide_eq_false_iff_not] at hfin ⊢
  omega

/-- Rounding a double that denotes an index gives the index. -/
theorem truncate_of_index? {v : Double} {n limit : Nat} (hindex : v.index? = some n)
    (hn : n ≤ limit) : v.truncate limit = n := by
  rcases eq_of_index? hindex with rfl | ⟨rfl, rfl⟩
  · have hle := index?_le hindex
    simp [truncate, isNaN_of_index? hindex, negative_ofNat hle, units_ofNat hle, oneUnits_pos, hn]
  · have hsign : negativeZero.negative = true := by decide
    simp [truncate, hsign]

/-! ## Beyond the indices -/

/-- The first natural number that is not a double lies half-way between two, and goes to the
even one. -/
theorem ofNat_succ_maxIndex : ofNat (maxIndex + 1) = ofNat maxIndex := by decide +kernel

/-- A quotient is never rounded below its integral part. -/
theorem div_le_divHalfEven (num den : Nat) : num / den ≤ divHalfEven num den := by
  unfold divHalfEven
  dsimp only
  split
  · exact Nat.le_refl _
  · split
    · exact Nat.le_succ _
    · exact Nat.le_add_right _ _

/-- The magnitude word of the double of `maxIndex`. -/
def maxIndexWord : Nat := 1076 * exponentWeight

/-- Words above that of `maxIndex` stand for more units. -/
theorem lt_unitsOf {w : Nat} (hw : maxIndexWord < w) : maxIndex * oneUnits < unitsOf w := by
  obtain ⟨e, f, hf, rfl⟩ : ∃ e f, f < exponentWeight ∧ w = e * exponentWeight + f :=
    ⟨w / exponentWeight, w % exponentWeight, Nat.mod_lt _ (by decide),
      by rw [Nat.mul_comm]; exact (Nat.div_add_mod _ _).symm⟩
  obtain ⟨k, rfl, hk, hfraction⟩ : ∃ k, e = k + 1 ∧ 1074 + 1 ≤ k ∧ (k = 1074 + 1 → 0 < f) := by
    unfold maxIndexWord exponentWeight at hw
    unfold exponentWeight at hf
    exact ⟨e - 1, by omega, by omega, by omega⟩
  rw [unitsOf_normal hf, oneUnits_eq]
  generalize 1074 = m at hk hfraction ⊢
  have hmax : maxIndex * 2 ^ m = exponentWeight * 2 ^ (m + 1) := by
    rw [show maxIndex = exponentWeight * 2 from rfl, Nat.mul_assoc, ← Nat.pow_succ']
  rw [hmax]
  rcases Nat.eq_or_lt_of_le hk with rfl | hlt
  · exact (Nat.mul_lt_mul_right (Nat.two_pow_pos _)).mpr
      (Nat.lt_add_of_pos_right (hfraction rfl))
  · calc exponentWeight * 2 ^ (m + 1)
        < exponentWeight * 2 ^ k :=
          (Nat.mul_lt_mul_left (by decide)).mpr (Nat.pow_lt_pow_right (by decide) hlt)
      _ ≤ (exponentWeight + f) * 2 ^ k := Nat.mul_le_mul_right _ (Nat.le_add_right _ _)

/-- From the second natural number after `maxIndex` on, the nearest double is above it. -/
theorem lt_nearestWord {n : Nat} (hn : maxIndex + 1 < n) :
    maxIndexWord < nearestWord (n * oneUnits) 1 := by
  have hne : n ≠ 0 := by omega
  obtain ⟨s, hs⟩ : ∃ s, n.log2 = 53 + s := by
    have hle : 53 ≤ n.log2 := (Nat.le_log2 hne).mpr (by unfold maxIndex at hn; omega)
    exact ⟨n.log2 - 53, by omega⟩
  have hquotient : n * oneUnits / (1 <<< (1075 + s)) = n / 2 ^ (s + 1) := by
    rw [Nat.one_shiftLeft, oneUnits_eq, show 1075 + s = s + 1 + 1074 by omega]
    generalize 1074 = m
    rw [Nat.pow_add, Nat.mul_div_mul_right _ _ (Nat.two_pow_pos m)]
  have hlow : 2 ^ 52 ≤ n / 2 ^ (s + 1) := by
    rw [Nat.le_div_iff_mul_le (Nat.two_pow_pos _), ← Nat.pow_add]
    have hself := Nat.log2_self_le hne
    rwa [hs, show 53 + s = 52 + (s + 1) by omega] at hself
  have hround := div_le_divHalfEven (n * oneUnits) (1 <<< (1075 + s))
  rw [hquotient] at hround
  unfold nearestWord
  dsimp only
  rw [Nat.div_one, log2_mul_oneUnits hne, hs, show 53 + s + 1074 - 52 = 1075 + s by omega,
    Nat.lt_min]
  refine ⟨?_, by decide⟩
  unfold maxIndexWord exponentWeight
  cases s with
  | zero =>
    -- The word of `maxIndex` has the same exponent, so the quotient itself has to be greater.
    have hhalf : 2 ^ 52 < n / 2 ^ (0 + 1) := by
      unfold maxIndex at hn
      omega
    omega
  | succ s => omega

/-- No natural number from the second after `maxIndex` on has an index for its nearest
double. -/
theorem index?_ofNat_eq_none {n : Nat} (hn : maxIndex + 1 < n) : (ofNat n).index? = none := by
  rw [Option.eq_none_iff_forall_ne_some]
  intro k hk
  obtain ⟨_, _, hunits, hle⟩ := index?_eq_some hk
  have hmagnitude : (ofNat n).magnitude = nearestWord (n * oneUnits) 1 :=
    magnitude_ofMagnitude ((nearestWord_le _ _).trans_lt (by decide)) false
  have hlt := lt_unitsOf (lt_nearestWord hn)
  rw [← hmagnitude, ← units, hunits] at hlt
  exact absurd (Nat.mul_le_mul_right oneUnits hle) (Nat.not_le.mpr hlt)

/-- The index that the double nearest to a natural number denotes. -/
theorem index?_ofNat_eq (n : Nat) : (ofNat n).index? =
    if n ≤ maxIndex then some n else if n = maxIndex + 1 then some maxIndex else none := by
  split_ifs with hle hnext
  · exact index?_ofNat hle
  · rw [hnext, ofNat_succ_maxIndex]
    exact index?_ofNat (Nat.le_refl maxIndex)
  · exact index?_ofNat_eq_none (by omega)

end StackMachine.Double
