import StackMachine.Double.Nearest

/-!
# Arithmetic of the machine

The sums, products, quotients and elementary functions of the instruction set, on
words.  The remainder is computed on exact units, and is therefore exact; the
comparisons of the conditional jumps allow a tolerance of one millionth.
-/

namespace StackMachine.Double

/-- Lifts a function of one floating-point number to words. -/
@[inline] def map (f : Float → Float) (v : Double) : Double :=
  ⟨(f (Float.ofBits v.bits)).toBits⟩

/-- Lifts a function of two floating-point numbers to words. -/
@[inline] def map₂ (f : Float → Float → Float) (v w : Double) : Double :=
  ⟨(f (Float.ofBits v.bits) (Float.ofBits w.bits)).toBits⟩

/-- The quiet NaN that the text `nan` stands for. -/
def nan : Double := ⟨0x7ff8000000000000⟩

/-- The remainder of the division truncated towards zero.  It has the sign of the
dividend; there is none by zero or of an infinity. -/
def rem (v w : Double) : Double :=
  if v.isNaN || w.isNaN || v.isInfinite || w.magnitude == 0 then nan
  else if w.isInfinite then v
  else nearest v.negative (v.units % w.units) 1

/-- The sum. -/
def add : Double → Double → Double := map₂ (· + ·)

/-- The difference. -/
def sub : Double → Double → Double := map₂ (· - ·)

/-- The product. -/
def mul : Double → Double → Double := map₂ (· * ·)

/-- The quotient. -/
def div : Double → Double → Double := map₂ (· / ·)

/-- The power. -/
def pow : Double → Double → Double := map₂ Float.pow

/-- The double one. -/
def one : Double := ⟨0x3ff0000000000000⟩

/-- The successor. -/
def inc (v : Double) : Double := v.add one

/-- The predecessor. -/
def dec (v : Double) : Double := v.sub one

/-- The square. -/
def sqr (v : Double) : Double := v.mul v

/-! ## Comparisons -/

/-- The tolerance of the comparisons. -/
def tolerance : Float := 1e-6

/-- Whether two values differ by less than the tolerance. -/
def near (v w : Double) : Bool :=
  (Float.ofBits v.bits - Float.ofBits w.bits).abs < tolerance

/-- Whether the first value exceeds the second by more than the tolerance. -/
def above (v w : Double) : Bool :=
  Float.ofBits w.bits + tolerance < Float.ofBits v.bits

/-- Whether the first value falls short of the second by more than the tolerance. -/
def below (v w : Double) : Bool :=
  Float.ofBits v.bits + tolerance < Float.ofBits w.bits

end StackMachine.Double
