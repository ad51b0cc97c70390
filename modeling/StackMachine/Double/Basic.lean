/-!
# Doubles as bit patterns

Every operand of the instruction stream and every cell of the machine is one
64-bit IEEE 754 word.  A `Double` is that word: values which are only moved
keep all their bits, the sign and payload of a NaN included, and two doubles are
equal exactly when their bits are.

A finite double is an integer multiple of the least positive double.  That integer
is `Double.units`; reading an index, truncating, rounding and printing are all
stated on it, so they are exact by construction.

Main definitions:

- `Double.units`, the magnitude counted in units of 2^-1074;
- `Double.toNat?` and `Double.index?`, the natural number a double stands for;
- `Double.truncate`, the saturating conversion to a bounded natural number;
- `Double.toBytes` and `Double.ofBytes`, the little-endian form in the stream.
-/

namespace StackMachine

/-- A 64-bit floating-point word. -/
@[ext]
structure Double where
  /-- The sign bit, eleven exponent bits and 52 fraction bits, highest first. -/
  bits : UInt64
deriving DecidableEq, Inhabited

namespace Double

/-! ## Fields of the word -/

/-- The weight of the sign bit. -/
def signWeight : Nat := 0x8000000000000000

/-- The weight of the lowest exponent bit. -/
def exponentWeight : Nat := 0x10000000000000

/-- The magnitude word of infinity: all exponent bits set and no fraction bit. -/
def infinityWord : Nat := 0x7ff0000000000000

/-- Whether the sign bit is set. -/
def negative (v : Double) : Bool := signWeight ≤ v.bits.toNat

/-- The word without its sign bit. -/
def magnitude (v : Double) : Nat := v.bits.toNat % signWeight

/-- The double with the given sign and magnitude word. -/
def ofMagnitude (negative : Bool) (magnitude : Nat) : Double :=
  ⟨(magnitude + if negative then signWeight else 0).toUInt64⟩

/-- Positive zero. -/
def zero : Double := ⟨0⟩

/-- Whether the double is a number other than an infinity. -/
def isFinite (v : Double) : Bool := v.magnitude < infinityWord

/-- Whether the double is one of the two infinities. -/
def isInfinite (v : Double) : Bool := v.magnitude == infinityWord

/-- Whether the double is not a number. -/
def isNaN (v : Double) : Bool := infinityWord < v.magnitude

/-! ## Exact values -/

/-- The units a magnitude word stands for: the fraction alone when the exponent
field is zero, and otherwise the fraction with its leading one, shifted. -/
def unitsOf (magnitude : Nat) : Nat :=
  let exponent := magnitude / exponentWeight
  let fraction := magnitude % exponentWeight
  if exponent = 0 then fraction else (exponentWeight + fraction) <<< (exponent - 1)

/-- The magnitude of a finite double, in units of the least positive double. -/
def units (v : Double) : Nat := unitsOf v.magnitude

/-- The number of units in one. -/
def oneUnits : Nat := Nat.pow 2 1074

/-- The natural number a double equals, if it equals one.  Both zeros equal zero. -/
def toNat? (v : Double) : Option Nat :=
  if v.isFinite && (!v.negative || v.magnitude == 0) && v.units % oneUnits == 0 then
    some (v.units / oneUnits)
  else
    none

/-- The greatest natural number up to which all are doubles, two to the 53rd. -/
def maxIndex : Nat := 9007199254740992

/-- The index a double denotes: a natural number of at most `maxIndex`. -/
def index? (v : Double) : Option Nat := v.toNat?.filter (· ≤ maxIndex)

/-- The integer part of a double clamped to `0 … limit`; a NaN counts as zero. -/
def truncate (limit : Nat) (v : Double) : Nat :=
  if v.isNaN || v.negative then 0 else min limit (v.units / oneUnits)

/-! ## Bytes -/

/-- The number of bytes of a double in the instruction stream. -/
def width : Nat := 8

/-- The eight bytes of a word, lowest first. -/
def wordBytes (w : UInt64) : List UInt8 :=
  (List.range width).map fun i => (w >>> (8 * i).toUInt64).toUInt8

/-- The eight bytes of a double, lowest first. -/
def toBytes (v : Double) : List UInt8 := wordBytes v.bits

/-- The double with the given bytes, lowest first. -/
def ofBytes (bytes : List UInt8) : Double :=
  ⟨bytes.foldr (fun b w => (w <<< 8) ||| b.toUInt64) 0⟩

end Double

end StackMachine
