import StackMachine.Error

/-!
# Bitmaps

The picture files of the machine: a header of 26 bytes and the data as it is.  The
number of bits for a pixel follows from the amount of data.
-/

namespace StackMachine.Bitmap

/-- The lowest bytes of a number, lowest first. -/
def littleEndian : Nat → Nat → List UInt8
  | 0, _ => []
  | width + 1, n => n.toUInt8 :: littleEndian width (n / 256)

/-- The number of bytes before the data. -/
def headerSize : Nat := 26

/-- The number of bytes of the part of the header that describes the picture. -/
def coreHeaderSize : Nat := 12

/-- The greatest value of a field of two bytes. -/
def maxField : Nat := 65535

/-- The bits for a pixel when so many bytes fill the picture. -/
def bitsPerPixel (width height length : Nat) : Nat := length * 8 / width / height

/-- The bitmap file of the given dimensions and data. -/
def encode (width height : Nat) (data : List UInt8) : Except HostError (List UInt8) :=
  if maxField < width then .error (.invalidBitmap s!"width {width} exceeds {maxField}")
  else if maxField < height then .error (.invalidBitmap s!"height {height} exceeds {maxField}")
  else if width = 0 ∨ height = 0 then
    .error (.invalidBitmap s!"empty picture {width}x{height}")
  else
    let depth := bitsPerPixel width height data.length
    if maxField < depth then .error (.invalidBitmap s!"{depth} bits per pixel is too many")
    else .ok (
      [0x42, 0x4d] ++ littleEndian 4 (headerSize + data.length) ++ littleEndian 4 0 ++
        littleEndian 4 headerSize ++ littleEndian 4 coreHeaderSize ++
        littleEndian 2 width ++ littleEndian 2 height ++ littleEndian 2 1 ++
        littleEndian 2 depth ++ data)

end StackMachine.Bitmap
