import StackMachine.Stack.Guarded

/-!
# Call frames

A call keeps where to return to and how high the value stack was.  Arguments lie just
below that height and locals start at it.
-/

namespace StackMachine

/-- An active call. -/
structure Frame where
  /-- The offset to continue at after the call. -/
  returnAddress : Nat
  /-- The height of the value stack when the function was entered. -/
  base : Nat
  argCount : Nat
  localCount : Nat
deriving DecidableEq

/-- The height of the value stack before the arguments were pushed. -/
def Frame.callerDepth (f : Frame) : Nat := f.base - f.argCount

instance : Guarded Frame where
  byteSum f := wordByteSum f.returnAddress.toUInt64 + wordByteSum f.base.toUInt64 +
    wordByteSum f.argCount.toUInt64 + wordByteSum f.localCount.toUInt64

end StackMachine
