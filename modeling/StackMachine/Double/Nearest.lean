import StackMachine.Double.Basic

/-!
# Rounding to the nearest double

Exact quotients are rounded to the nearest double; a quotient half-way between two
doubles goes to the one whose word is even.  The words of the nonnegative doubles are
in the order of their values, and `k * 2^52 + m` is the word of `m * 2^k` units for
every `m` up to `2^53` (from `2^52` on, when `k` is positive), so that a rounding which
carries into the next exponent needs no special case.

Main definitions:

- `Double.divHalfEven`, division rounded to nearest, ties to even;
- `Double.nearestWord`, the magnitude word nearest to a quotient of units;
- `Double.ofNat`, the double nearest to a natural number.
-/

namespace StackMachine.Double

/-- The quotient rounded to the nearest natural number, a half to the even one. -/
def divHalfEven (num den : Nat) : Nat :=
  let quotient := num / den
  let rest := num % den
  if 2 * rest < den then quotient
  else if den < 2 * rest then quotient + 1
  else quotient + quotient % 2

/-- The magnitude word of the double nearest to `num / den` units; what lies beyond the
largest finite double gives infinity. -/
def nearestWord (num den : Nat) : Nat :=
  let shift := (num / den).log2 - 52
  min (shift * exponentWeight + divHalfEven num (den <<< shift)) infinityWord

/-- The double of the given sign nearest to `num / den` units. -/
def nearest (negative : Bool) (num den : Nat) : Double :=
  ofMagnitude negative (nearestWord num den)

/-- The double nearest to a natural number. -/
def ofNat (n : Nat) : Double := nearest false (n * oneUnits) 1

end StackMachine.Double
