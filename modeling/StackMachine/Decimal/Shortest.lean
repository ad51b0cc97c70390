import StackMachine.Decimal.Basic

/-!
# The shortest text of a double

A double is written with the fewest significant digits that read back as the same
double, and of the decimals with that many digits with the nearest one; if two are
equally near, with the greater.  The candidates with a given number of digits are the
two neighbours of the exact value on that decimal grid, and a candidate counts exactly
if `Decimal.toWord` gives the word of the double, so whatever is written reads back.
-/

namespace StackMachine

namespace Decimal

/-- The decimal of `count` leading digits of `exact` that reads back as `word`, if there
is one: the value cut off, or the next one on the same grid. -/
def withDigits? (exact : Decimal) (length word count : Nat) : Option Decimal :=
  if length ≤ count then none
  else
    let cut := length - count
    let unit := Nat.pow 10 cut
    let lower : Decimal := ⟨exact.digits / unit, exact.exponent + cut⟩
    let upper : Decimal := ⟨exact.digits / unit + 1, exact.exponent + cut⟩
    match lower.toWord == word, upper.toWord == word with
    | true, true => some (if 2 * (exact.digits % unit) < unit then lower else upper)
    | true, false => some lower
    | false, true => some upper
    | false, false => none

/-- The greatest number of significant digits that telling doubles apart can take. -/
def maxDigits : Nat := 17

/-- The shortest decimal that reads back as the magnitude word. -/
def shortest (word : Nat) : Decimal :=
  let exact := ofUnits (Double.unitsOf word)
  let length := (Nat.toDigits 10 exact.digits).length
  ((List.range maxDigits).findSome? fun i => withDigits? exact length word (i + 1)).getD exact

end Decimal

namespace Double

/-- The sign in front of a number's digits. -/
def signChars (v : Double) : List Char := if v.negative then ['-'] else []

/-- The shortest text of a double, as characters. -/
def toChars (v : Double) : List Char :=
  if v.isNaN then "NaN".toList
  else if v.isInfinite then v.signChars ++ "inf".toList
  else v.signChars ++ (Decimal.shortest v.magnitude).toChars

/-- The shortest text of a double. -/
def toText (v : Double) : String := String.ofList v.toChars

end Double

end StackMachine
