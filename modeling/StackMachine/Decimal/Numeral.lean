import StackMachine.Decimal.Basic

/-!
# Numerals

The numerals of source text and console input: an optional sign, then either digits
with an optional point and an optional exponent, or one of the words `inf`, `infinity`
and `nan` in any case.  There is at least one digit before or after the point and at
least one in an exponent.  The value is the nearest double.
-/

namespace StackMachine

namespace Decimal

/-- From this size on an exponent takes no further digits; by then every numeral whose
digits fit in memory is far outside the range of doubles. -/
def exponentCap : Nat := 0x10000

/-- The value of the digits of an exponent. -/
def exponentValue (ds : List Char) : Nat :=
  ds.foldl (fun n c => if n < exponentCap then 10 * n + (c.toNat - '0'.toNat) else n) 0

/-- Reads the digits of an exponent: one or more, and nothing else. -/
def readDigits? (ds : List Char) : Option Nat :=
  if !ds.isEmpty && ds.all Char.isDigit then some (exponentValue ds) else none

/-- Reads what may follow the digits of a numeral: nothing, or an exponent. -/
def readExponent? : List Char → Option Int
  | [] => some 0
  | c :: cs =>
    if c == 'e' || c == 'E' then
      match cs with
      | '-' :: ds => (readDigits? ds).map fun n => -(n : Int)
      | '+' :: ds => (readDigits? ds).map Int.ofNat
      | ds => (readDigits? ds).map Int.ofNat
    else
      none

/-- Splits off the digits after a point, if there is a point. -/
def splitFraction : List Char → List Char × List Char
  | '.' :: cs => (cs.takeWhile Char.isDigit, cs.dropWhile Char.isDigit)
  | cs => ([], cs)

/-- Reads an unsigned numeral. -/
def read? (cs : List Char) : Option Decimal :=
  let whole := cs.takeWhile Char.isDigit
  let (fraction, rest) := splitFraction (cs.dropWhile Char.isDigit)
  if whole.isEmpty && fraction.isEmpty then none
  else (readExponent? rest).map fun e =>
    ⟨Nat.ofDigitChars 10 (whole ++ fraction) 0, e - fraction.length⟩

end Decimal

namespace Double

/-- The magnitude word of the quiet NaN that the word `nan` denotes. -/
def nanWord : Nat := 0x7ff8000000000000

/-- Reads one of the words for what is not a finite number. -/
def readSpecial? (cs : List Char) : Option Nat :=
  let word := String.ofList (cs.map Char.toLower)
  if word == "inf" || word == "infinity" then some infinityWord
  else if word == "nan" then some nanWord
  else none

/-- Splits off an optional sign; `true` stands for minus. -/
def splitSign : List Char → Bool × List Char
  | '-' :: cs => (true, cs)
  | '+' :: cs => (false, cs)
  | cs => (false, cs)

/-- Reads a numeral. -/
def ofChars? (cs : List Char) : Option Double :=
  let (negative, body) := splitSign cs
  match Decimal.read? body with
  | some d => some (ofMagnitude negative d.toWord)
  | none => (readSpecial? body).map (ofMagnitude negative)

/-- Reads a numeral. -/
def ofText? (text : String) : Option Double := ofChars? text.toList

end Double

end StackMachine
