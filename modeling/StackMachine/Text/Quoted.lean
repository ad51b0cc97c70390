import StackMachine.Text.Extender
import StackMachine.Text.Unprintable

/-!
# Quoted text

Messages show texts they did not make in double quotes.  Inside, a quote and a
backslash are escaped, five control characters have escapes of their own, and
characters that extend the one before them or have no printed form are given by their
code points.
-/

namespace StackMachine.Text

/-- Whether a number lies in one of the closed ranges. -/
def inRanges (ranges : List (Nat × Nat)) (n : Nat) : Bool :=
  ranges.any fun (low, high) => low ≤ n && n ≤ high

/-- Whether a character extends the one before it. -/
def isExtender (c : Char) : Bool := inRanges extenderRanges c.toNat

/-- Whether a character is shown as itself. -/
def isPrintable (c : Char) : Bool :=
  (' ' ≤ c && c ≤ '~') || !(inRanges unprintableRanges c.toNat)

/-- The escape of a character by its code point. -/
def codePointEscape (c : Char) : List Char :=
  "\\u\x7b".toList ++ Nat.toDigits 16 c.toNat ++ ['\x7d']

/-- The form of a character inside quotes. -/
def escape (c : Char) : List Char :=
  match c with
  | '\x00' => "\\0".toList
  | '\t' => "\\t".toList
  | '\r' => "\\r".toList
  | '\n' => "\\n".toList
  | '\\' => "\\\\".toList
  | '"' => "\\\"".toList
  | c => if isExtender c || !isPrintable c then codePointEscape c else [c]

/-- A text in quotes. -/
def quoted (text : String) : String :=
  String.ofList ('"' :: text.toList.flatMap escape ++ ['"'])

end StackMachine.Text
