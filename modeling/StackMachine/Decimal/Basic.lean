import StackMachine.Double.Nearest

/-!
# Decimal numbers

A decimal is a natural number times a power of ten.  Reading a numeral and printing a
double both go through this form: `Decimal.toWord` is the one place where a decimal
becomes a double, so that "the digits read back" means the same on both sides.

Main definitions:

- `Decimal.toWord`, the magnitude word of the double nearest to a decimal;
- `Decimal.ofUnits`, the exact decimal value of a number of units;
- `Decimal.toChars`, positional notation without an exponent.
-/

namespace StackMachine

/-- The decimal `digits * 10 ^ exponent`. -/
structure Decimal where
  digits : Nat
  exponent : Int
deriving DecidableEq

namespace Decimal

/-- The magnitude word of the double nearest to the decimal. -/
def toWord (d : Decimal) : Nat :=
  match d.exponent with
  | .ofNat e => Double.nearestWord (d.digits * Nat.pow 10 e * Double.oneUnits) 1
  | .negSucc e => Double.nearestWord (d.digits * Double.oneUnits) (Nat.pow 10 (e + 1))

/-- The exact value of a number of units: one unit is `5 ^ 1074 * 10 ^ -1074`. -/
def ofUnits (units : Nat) : Decimal := ⟨units * Nat.pow 5 1074, -1074⟩

/-- The decimal digits of a natural number, at least `width` of them. -/
def padded (width n : Nat) : List Char := (Nat.toDigits 10 n).leftpad width '0'

/-- A list of digits without the zeros at its end. -/
def dropTrailingZeros (ds : List Char) : List Char :=
  (ds.reverse.dropWhile (· == '0')).reverse

/-- Positional notation: no exponent, no zeros at the end of the fraction, and no point
without a fraction. -/
def toChars (d : Decimal) : List Char :=
  match d.exponent with
  | .ofNat e => Nat.toDigits 10 (d.digits * Nat.pow 10 e)
  | .negSucc e =>
    let places := e + 1
    let whole := Nat.toDigits 10 (d.digits / Nat.pow 10 places)
    match dropTrailingZeros (padded places (d.digits % Nat.pow 10 places)) with
    | [] => whole
    | fraction => whole ++ '.' :: fraction

end Decimal

end StackMachine
