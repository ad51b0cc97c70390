/-!
# Bytes as text

File contents and console input are bytes.  Text in them is UTF-8: `ofBytes?` accepts
exactly the valid encodings, and `ofBytesLossy` reads any bytes, with one replacement
character for each maximal run that begins an encoding and does not complete it.
-/

namespace StackMachine.Text

/-- The text whose UTF-8 encoding is the given bytes, if there is one. -/
def ofBytes? (bytes : List UInt8) : Option String := String.fromUTF8? bytes.toByteArray

/-- The UTF-8 encoding of a text. -/
def toBytes (text : String) : List UInt8 := text.toUTF8.toList

/-- The character that stands for bytes which encode none. -/
def replacement : Char := Char.ofNat 0xfffd

/-- What may follow a first byte: the value it contributes and the ranges of the bytes
after it; `none` for a byte that begins no encoding. -/
def lead? (b : Nat) : Option (Nat × List (Nat × Nat)) :=
  let any := (0x80, 0xbf)
  if b < 0x80 then some (b, [])
  else if 0xc2 ≤ b && b ≤ 0xdf then some (b - 0xc0, [any])
  else if b == 0xe0 then some (0, [(0xa0, 0xbf), any])
  else if b == 0xed then some (0xd, [(0x80, 0x9f), any])
  else if 0xe1 ≤ b && b ≤ 0xef then some (b - 0xe0, [any, any])
  else if b == 0xf0 then some (0, [(0x90, 0xbf), any, any])
  else if b == 0xf4 then some (4, [(0x80, 0x8f), any, any])
  else if 0xf1 ≤ b && b ≤ 0xf3 then some (b - 0xf0, [any, any, any])
  else none

/-- Extends a value by the bytes that fit the expected ranges.  Gives the character if
all of them do, and otherwise the replacement, with the bytes that are left. -/
def continueWith (value : Nat) :
    List (Nat × Nat) → List UInt8 → Char × List UInt8
  | [], rest => (Char.ofNat value, rest)
  | _ :: _, [] => (replacement, [])
  | (low, high) :: ranges, b :: rest =>
    if low ≤ b.toNat && b.toNat ≤ high then
      continueWith (value * 64 + b.toNat % 64) ranges rest
    else
      (replacement, b :: rest)

theorem continueWith_length_le (value : Nat) (ranges : List (Nat × Nat))
    (bytes : List UInt8) : (continueWith value ranges bytes).2.length ≤ bytes.length := by
  fun_induction continueWith value ranges bytes with
  | case1 => exact Nat.le_refl _
  | case2 => exact Nat.le_refl _
  | case3 _ _ _ _ b rest _ ih => exact Nat.le_succ_of_le ih
  | case4 => exact Nat.le_refl _

/-- The first character of some bytes that are not empty, and the bytes that are left. -/
def firstChar (b : UInt8) (rest : List UInt8) : Char × List UInt8 :=
  match lead? b.toNat with
  | some (value, ranges) => continueWith value ranges rest
  | none => (replacement, rest)

theorem firstChar_length_le (b : UInt8) (rest : List UInt8) :
    (firstChar b rest).2.length ≤ rest.length := by
  unfold firstChar
  split
  · exact continueWith_length_le _ _ _
  · exact Nat.le_refl _

/-- Reads bytes as text, with replacement characters for what is not UTF-8. -/
def ofBytesLossy : List UInt8 → List Char
  | [] => []
  | b :: rest => (firstChar b rest).1 :: ofBytesLossy (firstChar b rest).2
termination_by bytes => bytes.length
decreasing_by
  have := firstChar_length_le b rest
  simp only [List.length_cons]
  omega

end StackMachine.Text
