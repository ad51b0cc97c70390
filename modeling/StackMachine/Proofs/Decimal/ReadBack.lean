import Mathlib.Data.List.TakeWhile
import StackMachine.Decimal.Numeral
import StackMachine.Decimal.Shortest
import StackMachine.Proofs.Double.Exact

/-!
# Texts of doubles read back

The text of a double is a numeral, and reading it gives the double again: bit for bit for
every double that is not a NaN, and the quiet NaN without a sign for every NaN.  The
digits are chosen by their reading back, so the work is in the positional notation: what
is read has the value of the decimal that was written, and rounding depends on that value
only.

Main results:

- Theorem `Decimal.read?_toChars`: a decimal is read back with its value.
- Theorem `Decimal.toWord_shortest`: the shortest decimal of a word stands for it.
- Theorem `Double.ofText?_toText`: the text of a number denotes it.
- Theorem `Double.ofText?_toText_of_isNaN`: the text of a NaN denotes the quiet NaN.
- Theorem `Double.eq_nan_of_ofText?`: the NaNs that texts denote.
-/

namespace StackMachine

namespace Decimal

/-! ## Digits -/

/-- The digits of a number are digits. -/
theorem isDigit_of_mem_toDigits {n : Nat} {c : Char} (hc : c ∈ Nat.toDigits 10 n) :
    c.isDigit = true :=
  Nat.isDigit_of_mem_toDigits (by decide) (by decide) hc

theorem padded_eq (width n : Nat) :
    padded width n =
      List.replicate (width - (Nat.toDigits 10 n).length) '0' ++ Nat.toDigits 10 n := rfl

theorem isDigit_of_mem_padded {width n : Nat} {c : Char} (hc : c ∈ padded width n) :
    c.isDigit = true := by
  rw [padded_eq, List.mem_append] at hc
  rcases hc with hzero | hdigit
  · rw [(List.mem_replicate.mp hzero).2]
    rfl
  · exact isDigit_of_mem_toDigits hdigit

/-- Leading zeros do not count. -/
theorem ofDigitChars_padded (width n : Nat) : Nat.ofDigitChars 10 (padded width n) 0 = n := by
  rw [padded_eq, Nat.ofDigitChars_append, Nat.ofDigitChars_replicate_zero, Nat.mul_zero,
    Nat.ofDigitChars_ten_toDigits]

/-- A number that fits into a width is padded to it. -/
theorem length_padded {width n : Nat} (hwidth : 0 < width) (hn : n < 10 ^ width) :
    (padded width n).length = width := by
  have hle := (Nat.length_toDigits_le_iff (b := 10) (n := n) (by decide) hwidth).mpr hn
  simp only [padded_eq, List.length_append, List.length_replicate]
  omega

/-- The digits that are dropped at the end are zeros. -/
theorem dropTrailingZeros_append (ds : List Char) :
    ∃ k, dropTrailingZeros ds ++ List.replicate k '0' = ds := by
  refine ⟨(ds.reverse.takeWhile (· == '0')).length, ?_⟩
  have hzeros : ds.reverse.takeWhile (· == '0') =
      List.replicate (ds.reverse.takeWhile (· == '0')).length '0' := by
    apply List.eq_replicate_of_mem
    intro c hc
    simpa using List.mem_takeWhile_imp hc
  rw [dropTrailingZeros, ← List.reverse_replicate, ← hzeros, ← List.reverse_append,
    List.takeWhile_append_dropWhile, List.reverse_reverse]

/-- The number with some digits after others is the sum of both, each with its weight. -/
theorem ofDigitChars_append_eq (ds es : List Char) :
    Nat.ofDigitChars 10 (ds ++ es) 0 =
      10 ^ es.length * Nat.ofDigitChars 10 ds 0 + Nat.ofDigitChars 10 es 0 := by
  rw [Nat.ofDigitChars_append, Nat.ofDigitChars_eq_ofDigitChars_zero]

/-! ## Reading positional notation -/

/-- Digits, with more of them after a point, are read as one number and its places. -/
theorem read?_point {ds es : List Char} (hne : ds ≠ []) (hds : ∀ c ∈ ds, c.isDigit = true)
    (hes : ∀ c ∈ es, c.isDigit = true) :
    read? (ds ++ '.' :: es) = some ⟨Nat.ofDigitChars 10 (ds ++ es) 0, -(es.length : Int)⟩ := by
  have hpoint : ('.' : Char).isDigit = false := rfl
  have htake : (ds ++ '.' :: es).takeWhile Char.isDigit = ds := by
    rw [List.takeWhile_append_of_pos hds, List.takeWhile_cons_of_neg (by simp [hpoint]),
      List.append_nil]
  have hdrop : (ds ++ '.' :: es).dropWhile Char.isDigit = '.' :: es := by
    rw [List.dropWhile_append_of_pos hds, List.dropWhile_cons_of_neg (by simp [hpoint])]
  have htake' : es.takeWhile Char.isDigit = es := List.takeWhile_eq_self_iff.mpr hes
  have hdrop' : es.dropWhile Char.isDigit = [] := List.dropWhile_eq_nil_iff.mpr hes
  simp [read?, htake, hdrop, splitFraction, htake', hdrop', hne, readExponent?]

/-- A row of digits is read as an integer. -/
theorem read?_digits {ds : List Char} (hne : ds ≠ []) (hds : ∀ c ∈ ds, c.isDigit = true) :
    read? ds = some ⟨Nat.ofDigitChars 10 ds 0, 0⟩ := by
  have htake : ds.takeWhile Char.isDigit = ds := List.takeWhile_eq_self_iff.mpr hds
  have hdrop : ds.dropWhile Char.isDigit = [] := List.dropWhile_eq_nil_iff.mpr hds
  simp [read?, htake, hdrop, splitFraction, hne, readExponent?]

/-- The word of a decimal with the given number of places. -/
theorem toWord_places (n places : Nat) :
    toWord ⟨n, -(places : Int)⟩ = Double.nearestWord (n * Double.oneUnits) (10 ^ places) := by
  cases places with
  | zero => simp [toWord]
  | succ places => rfl

/-- A decimal is read back with its value. -/
theorem read?_toChars (d : Decimal) : ∃ d', read? d.toChars = some d' ∧ d'.toWord = d.toWord := by
  obtain ⟨n, exponent⟩ := d
  cases exponent with
  | ofNat e =>
    have hchars : toChars ⟨n, .ofNat e⟩ = Nat.toDigits 10 (n * 10 ^ e) := rfl
    rw [hchars, read?_digits Nat.toDigits_ne_nil fun c hc => isDigit_of_mem_toDigits hc,
      Nat.ofDigitChars_ten_toDigits]
    exact ⟨_, rfl, by simp [toWord]⟩
  | negSucc e =>
    set places := e + 1 with hplaces
    set whole := Nat.toDigits 10 (n / 10 ^ places) with hwhole
    set padding := padded places (n % 10 ^ places) with hpadding
    set fraction := dropTrailingZeros padding with hfraction
    have hpow : 0 < 10 ^ places := Nat.pow_pos (by decide)
    obtain ⟨k, hk⟩ := dropTrailingZeros_append padding
    rw [← hfraction] at hk
    have hlen : fraction.length + k = places := by
      have := congrArg List.length hk
      rwa [List.length_append, List.length_replicate, hpadding,
        length_padded (by omega) (Nat.mod_lt _ hpow)] at this
    have hds : ∀ c ∈ whole, c.isDigit = true := fun c hc => isDigit_of_mem_toDigits hc
    have hes : ∀ c ∈ fraction, c.isDigit = true := fun c hc =>
      isDigit_of_mem_padded (hk ▸ List.mem_append_left _ hc)
    have hread : read? (toChars ⟨n, .negSucc e⟩) =
        some ⟨Nat.ofDigitChars 10 (whole ++ fraction) 0, -(fraction.length : Int)⟩ := by
      cases hcase : fraction with
      | nil =>
        have hchars : toChars ⟨n, .negSucc e⟩ = whole := by
          simp only [toChars, Nat.pow_eq, ← hplaces, ← hpadding, ← hfraction, hcase]
          rfl
        rw [hchars, List.append_nil, read?_digits Nat.toDigits_ne_nil hds]
        rfl
      | cons c cs =>
        have hchars : toChars ⟨n, .negSucc e⟩ = whole ++ '.' :: (c :: cs) := by
          simp only [toChars, Nat.pow_eq, ← hplaces, ← hpadding, ← hfraction, hcase]
          rfl
        rw [hchars, read?_point Nat.toDigits_ne_nil hds (hcase ▸ hes)]
    refine ⟨_, hread, ?_⟩
    -- The digits kept are those of the decimal without the zeros that were dropped.
    have hvalue : Nat.ofDigitChars 10 (whole ++ fraction) 0 * 10 ^ k = n := by
      have hrest : 10 ^ k * Nat.ofDigitChars 10 fraction 0 = n % 10 ^ places := by
        have hzeros := congrArg (fun ds => Nat.ofDigitChars 10 ds 0) hk
        simp only [hpadding, ofDigitChars_padded] at hzeros
        rw [← hzeros, Nat.ofDigitChars_append, Nat.ofDigitChars_replicate_zero]
      calc Nat.ofDigitChars 10 (whole ++ fraction) 0 * 10 ^ k
          = 10 ^ (fraction.length + k) * (n / 10 ^ places) +
              10 ^ k * Nat.ofDigitChars 10 fraction 0 := by
            rw [ofDigitChars_append_eq, hwhole, Nat.ofDigitChars_ten_toDigits, pow_add]
            ring
        _ = n := by rw [hlen, hrest, Nat.div_add_mod]
    have hscale : 0 < 10 ^ k := Nat.pow_pos (by decide)
    rw [toWord_places, ← Double.nearestWord_mul_right hscale, ← pow_add, hlen, Nat.mul_right_comm,
      hvalue]
    rfl

/-! ## The shortest decimal -/

/-- The digits that are found for a word have it as their nearest word. -/
theorem toWord_of_withDigits? {exact d : Decimal} {length word count : Nat}
    (h : withDigits? exact length word count = some d) : d.toWord = word := by
  simp only [withDigits?] at h
  split at h
  · cases h
  · split at h
    · rename_i hlower hupper
      cases h
      split
      · exact beq_iff_eq.mp hlower
      · exact beq_iff_eq.mp hupper
    · rename_i hlower _
      cases h
      exact beq_iff_eq.mp hlower
    · rename_i _ hupper
      cases h
      exact beq_iff_eq.mp hupper
    · cases h

/-- The exact decimal of a finite word stands for it. -/
theorem toWord_ofUnits {word : Nat} (hword : word < Double.infinityWord) :
    (ofUnits (Double.unitsOf word)).toWord = word := by
  have hexponent : (-1074 : Int) = -((1074 : Nat) : Int) := rfl
  have hone := Double.oneUnits_eq
  rw [ofUnits, hexponent, toWord_places]
  generalize (1074 : Nat) = k at hone ⊢
  have hpos : 0 < 10 ^ k := Nat.pow_pos (by decide)
  rw [hone, Nat.pow_eq, Nat.mul_assoc, ← Nat.mul_pow]
  calc Double.nearestWord (Double.unitsOf word * 10 ^ k) (10 ^ k)
      = Double.nearestWord (Double.unitsOf word * 10 ^ k) (1 * 10 ^ k) := by rw [Nat.one_mul]
    _ = word := by rw [Double.nearestWord_mul_right hpos, Double.nearestWord_unitsOf hword]

/-- The shortest decimal of a finite word stands for it. -/
theorem toWord_shortest {word : Nat} (hword : word < Double.infinityWord) :
    (shortest word).toWord = word := by
  simp only [shortest]
  generalize hfound : (List.range maxDigits).findSome? _ = found
  cases found with
  | none => exact toWord_ofUnits hword
  | some d =>
    obtain ⟨_, _, _, _, hd, _⟩ := List.findSome?_eq_some_iff.mp hfound
    exact toWord_of_withDigits? hd

/-! ## Characters -/

/-- The characters of positional notation. -/
theorem mem_toChars {d : Decimal} {c : Char} (hc : c ∈ d.toChars) : c.isDigit = true ∨ c = '.' := by
  obtain ⟨n, exponent⟩ := d
  cases exponent with
  | ofNat e => exact Or.inl (isDigit_of_mem_toDigits hc)
  | negSucc e =>
    simp only [toChars] at hc
    split at hc
    · exact Or.inl (isDigit_of_mem_toDigits hc)
    · obtain ⟨k, hk⟩ := dropTrailingZeros_append (padded (e + 1) (n % Nat.pow 10 (e + 1)))
      rw [List.mem_append, List.mem_cons] at hc
      rcases hc with hwhole | rfl | hfraction
      · exact Or.inl (isDigit_of_mem_toDigits hwhole)
      · exact Or.inr rfl
      · exact Or.inl (isDigit_of_mem_padded (hk ▸ List.mem_append_left _ hfraction))

/-- Positional notation starts with a digit. -/
theorem toChars_eq_cons (d : Decimal) : ∃ c cs, d.toChars = c :: cs ∧ c.isDigit = true := by
  have hwhole (n : Nat) : ∃ c cs, Nat.toDigits 10 n = c :: cs ∧ c.isDigit = true := by
    obtain ⟨c, cs, hcons⟩ := List.exists_cons_of_ne_nil (Nat.toDigits_ne_nil (n := n) (b := 10))
    exact ⟨c, cs, hcons, isDigit_of_mem_toDigits (hcons ▸ List.mem_cons_self)⟩
  obtain ⟨n, exponent⟩ := d
  cases exponent with
  | ofNat e => exact hwhole _
  | negSucc e =>
    obtain ⟨c, cs, hcons, hdigit⟩ := hwhole (n / Nat.pow 10 (e + 1))
    simp only [toChars, hcons]
    split
    · exact ⟨c, cs, rfl, hdigit⟩
    · exact ⟨c, _, rfl, hdigit⟩

end Decimal

namespace Double

/-! ## Doubles -/

/-- A text that starts with a digit has no sign. -/
theorem splitSign_of_isDigit {c : Char} (cs : List Char) (hc : c.isDigit = true) :
    splitSign (c :: cs) = (false, c :: cs) := by
  unfold splitSign
  split
  · rename_i hcons
    cases hcons
    cases hc
  · rename_i hcons
    cases hcons
    cases hc
  · rfl

/-- Digits denote the double nearest to their number. -/
theorem ofText?_digits {ds : List Char} (hne : ds ≠ []) (hds : ∀ c ∈ ds, c.isDigit = true) :
    ofText? (String.ofList ds) = some (ofNat (Nat.ofDigitChars 10 ds 0)) := by
  obtain ⟨c, cs, rfl⟩ := List.exists_cons_of_ne_nil hne
  have hsplit := splitSign_of_isDigit cs (hds c List.mem_cons_self)
  simp only [ofText?, String.toList_ofList, ofChars?, hsplit, Decimal.read?_digits hne hds]
  simp [ofNat, nearest, Decimal.toWord]

/-- A sign in front of a text that shows none is split off again. -/
theorem splitSign_signChars (v : Double) {cs : List Char} (hcs : splitSign cs = (false, cs)) :
    splitSign (v.signChars ++ cs) = (v.negative, cs) := by
  unfold signChars
  cases v.negative with
  | false => exact hcs
  | true => rfl

theorem read?_inf : Decimal.read? "inf".toList = none := rfl

theorem readSpecial?_inf : readSpecial? "inf".toList = some infinityWord := rfl

theorem isNaN_eq_false {v : Double} (hnan : v.isNaN = false) : v.magnitude ≤ infinityWord := by
  simpa [isNaN] using hnan

/-- An infinity is read back with its sign. -/
theorem ofChars?_inf (v : Double) (hinf : v.magnitude = infinityWord) :
    ofChars? (v.signChars ++ "inf".toList) = some v := by
  simp only [ofChars?, splitSign_signChars v (show splitSign "inf".toList = _ from rfl),
    read?_inf, readSpecial?_inf, Option.map_some]
  rw [← hinf, ofMagnitude_self]

/-- A finite double is read back from its shortest digits and its sign. -/
theorem ofChars?_shortest (v : Double) (hfin : v.magnitude < infinityWord) :
    ofChars? (v.signChars ++ (Decimal.shortest v.magnitude).toChars) = some v := by
  obtain ⟨c, cs, hcons, hdigit⟩ := Decimal.toChars_eq_cons (Decimal.shortest v.magnitude)
  obtain ⟨d, hread, hword⟩ := Decimal.read?_toChars (Decimal.shortest v.magnitude)
  have hsplit := splitSign_signChars v (splitSign_of_isDigit cs hdigit)
  rw [← hcons] at hsplit
  simp only [ofChars?, hsplit, hread, hword, Decimal.toWord_shortest hfin, ofMagnitude_self]

/-- The text of a number denotes it. -/
theorem ofText?_toText {v : Double} (hnan : v.isNaN = false) : ofText? v.toText = some v := by
  have hle := isNaN_eq_false hnan
  rw [ofText?, toText, String.toList_ofList, toChars, hnan]
  by_cases hinf : v.isInfinite = true
  · have hmag : v.magnitude = infinityWord := by simpa [isInfinite] using hinf
    simp only [hinf, Bool.false_eq_true, if_false, if_true]
    exact ofChars?_inf v hmag
  · have hne : v.magnitude ≠ infinityWord := by simpa [isInfinite] using hinf
    simp only [hinf, Bool.false_eq_true, if_false]
    exact ofChars?_shortest v (Nat.lt_of_le_of_ne hle hne)

/-- The text of a NaN denotes the quiet NaN without a sign. -/
theorem ofText?_toText_of_isNaN {v : Double} (hnan : v.isNaN = true) :
    ofText? v.toText = some (ofMagnitude false nanWord) := by
  simp only [ofText?, toText, String.toList_ofList, toChars, hnan, if_true]
  rfl

/-- No decimal number has a greater word than infinity. -/
theorem toWord_le (d : Decimal) : d.toWord ≤ infinityWord := by
  unfold Decimal.toWord
  split <;> exact nearestWord_le _ _

/-- A text that denotes a NaN denotes the quiet one, with either sign. -/
theorem eq_nan_of_ofText? {text : String} {v : Double} (hv : ofText? text = some v)
    (hnan : v.isNaN = true) : v = ofMagnitude v.negative nanWord := by
  have hsplit : ∃ sign word, v = ofMagnitude sign word ∧
      (word ≤ infinityWord ∨ word = nanWord) := by
    unfold ofText? ofChars? at hv
    split at hv
    cases hread : Decimal.read? _ with
    | some d =>
      rw [hread] at hv
      exact ⟨_, _, (Option.some.inj hv).symm, Or.inl (toWord_le d)⟩
    | none =>
      rw [hread] at hv
      rcases Option.map_eq_some_iff.mp hv with ⟨word, hword, rfl⟩
      refine ⟨_, _, rfl, ?_⟩
      unfold readSpecial? at hword
      dsimp only at hword
      split_ifs at hword <;> cases hword
      · exact Or.inl (Nat.le_refl _)
      · exact Or.inr rfl
  rcases hsplit with ⟨sign, word, rfl, hfinite | rfl⟩
  · have hlt : word < signWeight := hfinite.trans_lt (by decide)
    simp only [isNaN, magnitude_ofMagnitude hlt, decide_eq_true_eq] at hnan
    omega
  · rw [negative_ofMagnitude (by decide)]

/-- The characters of a double's text: none of them separates, brackets or comments. -/
theorem mem_toChars {v : Double} {c : Char} (hc : c ∈ v.toChars) :
    c.isDigit = true ∨ c ∈ ['.', '-', 'N', 'a', 'i', 'n', 'f'] := by
  have hsign {c : Char} (hc : c ∈ v.signChars) : c = '-' := by
    unfold signChars at hc
    split at hc
    · exact List.mem_singleton.mp hc
    · cases hc
  have hNaN : "NaN".toList ⊆ ['.', '-', 'N', 'a', 'i', 'n', 'f'] := by decide
  have hinf : "inf".toList ⊆ ['.', '-', 'N', 'a', 'i', 'n', 'f'] := by decide
  unfold toChars at hc
  split at hc
  · exact Or.inr (hNaN hc)
  · split at hc
    · rcases List.mem_append.mp hc with hminus | hword
      · exact Or.inr (by simp [hsign hminus])
      · exact Or.inr (hinf hword)
    · rcases List.mem_append.mp hc with hminus | hnumber
      · exact Or.inr (by simp [hsign hminus])
      · rcases Decimal.mem_toChars hnumber with hdigit | rfl
        · exact Or.inl hdigit
        · exact Or.inr (by simp)

theorem toChars_ne_nil (v : Double) : v.toChars ≠ [] := by
  unfold toChars
  split
  · decide
  · split
    · simp
    · obtain ⟨c, cs, hcons, _⟩ := Decimal.toChars_eq_cons (Decimal.shortest v.magnitude)
      simp [hcons]

end Double

end StackMachine
