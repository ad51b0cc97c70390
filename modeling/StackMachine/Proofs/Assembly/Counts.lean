import StackMachine.Proofs.Assembly.Verified
import StackMachine.Proofs.Decimal.ReadBack
import StackMachine.Proofs.Double.Value

/-!
# Counts

Counts, slots, frame sizes and lengths are written as numerals and carried as doubles.  A row
of digits is read through the nearest double, and only that double is compared with the
greatest index.  Up to two to the 53rd the double is the number that is written.  The number
after that one lies half-way between two doubles and is rounded down to the limit, so it is
taken for it; all greater numbers are refused.

Main results:

- Theorem `parseCount_digits`: what a row of digits is read as.
- Theorem `digits_encoded`: what its operand holds, and when this is the number written.
-/

namespace StackMachine

/-- Whether an operand is written as a number. -/
def OperandKind.isNumber : OperandKind → Bool
  | .count | .slot | .frameSize | .length => true
  | _ => false

namespace Assembly

open Double (maxIndex)

/-- What a row of digits is read as: its number up to the greatest index, the greatest index
for the number after it, and nothing beyond. -/
theorem parseCount_digits {ds : List Char} (hne : ds ≠ []) (hds : ∀ c ∈ ds, c.isDigit = true) :
    parseCount (String.ofList ds) =
      if Nat.ofDigitChars 10 ds 0 ≤ maxIndex then .ok (Nat.ofDigitChars 10 ds 0)
      else if Nat.ofDigitChars 10 ds 0 = maxIndex + 1 then .ok maxIndex
      else .error (.invalidCount (String.ofList ds)) := by
  rw [parseCount, Double.ofText?_digits hne hds, Option.bind_some, Double.index?_ofNat_eq]
  generalize maxIndex = k
  split_ifs
  · rfl
  · rfl
  · rfl

/-- The operand of a token that is written as a number holds the count that the token is
read as. -/
theorem parseCount_of_resolve {s : Scope} {l : SourceLine} {kind : OperandKind} {token : String}
    {values : List Double} (hkind : kind.isNumber = true)
    (hvalues : s.resolve l kind (some token) = .ok values) :
    ∃ k, parseCount token = .ok k ∧ values = [Double.ofNat k] := by
  have hplain : kind.isPlain = true := by
    cases kind <;> first | rfl | cases hkind
  obtain ⟨k, hnames, hvalue⟩ := (Scope.resolve_eq_ok hplain).mp hvalues
  refine ⟨k, ?_, hvalue⟩
  cases kind with
  | count | slot => exact hnames
  | frameSize | length => exact hnames.1
  | _ => cases hkind

/-- A row of digits is read as its number up to two to the 53rd.  The number after that is
taken for two to the 53rd, and all greater numbers are refused.  What an operand holds that is
written so is the number itself, unless it is the one after two to the 53rd. -/
theorem digits_encoded {ds : List Char} (hne : ds ≠ []) (hds : ∀ c ∈ ds, c.isDigit = true) :
    (Nat.ofDigitChars 10 ds 0 ≤ 2 ^ 53 →
      parseCount (String.ofList ds) = .ok (Nat.ofDigitChars 10 ds 0)) ∧
    (Nat.ofDigitChars 10 ds 0 = 2 ^ 53 + 1 →
      parseCount (String.ofList ds) = .ok (2 ^ 53)) ∧
    (2 ^ 53 + 1 < Nat.ofDigitChars 10 ds 0 →
      parseCount (String.ofList ds) = .error (.invalidCount (String.ofList ds))) ∧
    ∀ (s : Scope) (l : SourceLine) (kind : OperandKind) (values : List Double),
      kind.isNumber = true → s.resolve l kind (some (String.ofList ds)) = .ok values →
        ∃ v, values = [v] ∧
          (v.Denotes (Nat.ofDigitChars 10 ds 0) ↔ Nat.ofDigitChars 10 ds 0 ≠ 2 ^ 53 + 1) := by
  have hparse := parseCount_digits hne hds
  have hmax : maxIndex = 2 ^ 53 := rfl
  rw [hmax] at hparse
  generalize Nat.ofDigitChars 10 ds 0 = n at hparse ⊢
  refine ⟨fun hle => ?_, fun hnext => ?_, fun hlt => ?_, fun s l kind values hkind hvalues => ?_⟩
  · rw [hparse, if_pos hle]
  · rw [hparse, if_neg (by omega), if_pos hnext]
  · rw [hparse, if_neg (by omega), if_neg (by omega)]
  · obtain ⟨k, hk, rfl⟩ := parseCount_of_resolve hkind hvalues
    refine ⟨Double.ofNat k, rfl, ?_⟩
    have hindex : (Double.ofNat k).index? = some k := Double.index?_ofNat (le_of_parseCount hk)
    rw [← Double.index?_eq_some_iff, hindex, Option.some_inj]
    rw [hparse] at hk
    split_ifs at hk with hle hnext
    · obtain rfl := Except.ok.inj hk
      omega
    · obtain rfl := Except.ok.inj hk
      omega

/-- The greatest number that is read as what is written. -/
theorem digits_encoded_limitExample :
    parseCount "9007199254740992" = .ok (2 ^ 53) ∧
      (⟨[], [], 0⟩ : Scope).resolve ⟨1, 6, .getArg, 1, []⟩ .slot (some "9007199254740992") =
        .ok [Double.ofNat (2 ^ 53)] ∧ (Double.ofNat (2 ^ 53)).Denotes (2 ^ 53) := by
  have hall : "9007199254740992".toList.all Char.isDigit = true := by decide +kernel
  have hnumber : Nat.ofDigitChars 10 "9007199254740992".toList 0 = 2 ^ 53 := by decide +kernel
  have hresolve : (⟨[], [], 0⟩ : Scope).resolve ⟨1, 6, .getArg, 1, []⟩ .slot
      (some "9007199254740992") = .ok [Double.ofNat (2 ^ 53)] := by decide +kernel
  obtain ⟨hread, _, _, hencoded⟩ := digits_encoded (by decide) (List.all_eq_true.mp hall)
  rw [hnumber] at hread hencoded
  obtain ⟨v, hv, hdenotes⟩ := hencoded _ _ _ _ rfl hresolve
  rw [List.singleton_inj] at hv
  subst hv
  exact ⟨hread (Nat.le_refl _), hresolve, hdenotes.mpr (by decide)⟩

/-- The number after two to the 53rd is accepted and taken for two to the 53rd: the two lines
assemble to the same program. -/
theorem parseCount_succ_limit :
    Nat.ofDigitChars 10 "9007199254740993".toList 0 = 2 ^ 53 + 1 ∧
      parseCount "9007199254740993" = .ok (2 ^ 53) ∧
      ∃ p, assemble "GET_ARG 9007199254740993" = .ok p ∧
        assemble "GET_ARG 9007199254740992" = .ok p := by
  refine ⟨by decide +kernel, by decide +kernel,
    .ofCode (Instruction.encode ⟨.getArg, [Double.ofNat (2 ^ 53)]⟩), ?_, ?_⟩ <;> decide +kernel

end Assembly

end StackMachine
