import StackMachine.Decimal.Shortest

/-!
# Numbers with a fixed number of places

The exact value of a double is rounded to the given number of places after the point;
a half goes to the even neighbour.  The sign of the double is kept, also when all the
digits are zero.
-/

namespace StackMachine.Double

/-- The text of a double with `places` digits after the point. -/
def toFixed (places : Nat) (v : Double) : String :=
  if v.isNaN then "NaN"
  else if v.isInfinite then String.ofList (v.signChars ++ "inf".toList)
  else
    let scaled := divHalfEven (v.units * Nat.pow 10 places) oneUnits
    let whole := Nat.toDigits 10 (scaled / Nat.pow 10 places)
    let fraction := Decimal.padded places (scaled % Nat.pow 10 places)
    String.ofList (v.signChars ++ whole ++ '.' :: fraction)

end StackMachine.Double
