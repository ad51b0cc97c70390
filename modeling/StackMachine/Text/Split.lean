/-!
# Cutting texts

Texts are lists of characters while they are taken apart.  `cut` is the one primitive:
the pieces between separators, the empty ones included.  Lines and words are read off
the pieces.

Main definitions:

- `Text.cut`, the pieces between separators;
- `Text.lines`, the lines of a text;
- `Text.words` and `Text.trim`, with the blanks of the Unicode standard.
-/

namespace StackMachine.Text

/-- The pieces of a list between the elements marked as separators.  There is one more
piece than there are separators. -/
def cut {α : Type} (isSeparator : α → Bool) : List α → List (List α)
  | [] => [[]]
  | a :: as =>
    if isSeparator a then [] :: cut isSeparator as
    else
      match cut isSeparator as with
      | [] => [[a]]
      | piece :: pieces => (a :: piece) :: pieces

/-! ## Lines -/

/-- A line without the carriage return that precedes its line feed. -/
def stripReturn (line : List Char) : List Char :=
  if line.getLast? = some '\r' then line.dropLast else line

/-- The lines of a text.  A line ends with a line feed, or with a carriage return and a
line feed; what follows the last line feed is a line of its own unless it is empty. -/
def lines (text : List Char) : List (List Char) :=
  let pieces := cut (· == '\n') text
  let last := pieces.getLast?.getD []
  pieces.dropLast.map stripReturn ++ if last.isEmpty then [] else [last]

/-! ## Words -/

/-- Whether a character is white space in the sense of the Unicode standard. -/
def isBlank (c : Char) : Bool :=
  let n := c.toNat
  (0x9 ≤ n && n ≤ 0xd) || n == 0x20 || n == 0x85 || n == 0xa0 || n == 0x1680 ||
    (0x2000 ≤ n && n ≤ 0x200a) || n == 0x2028 || n == 0x2029 || n == 0x202f ||
    n == 0x205f || n == 0x3000

/-- The maximal runs of characters that are not blank. -/
def words (text : List Char) : List (List Char) :=
  (cut isBlank text).filter fun word => !word.isEmpty

/-- A text without the blanks at its start. -/
def trimLeft (text : List Char) : List Char := text.dropWhile isBlank

/-- A text without the blanks at its end. -/
def trimRight (text : List Char) : List Char := (text.reverse.dropWhile isBlank).reverse

/-- A text without the blanks at its two ends. -/
def trim (text : List Char) : List Char := trimRight (trimLeft text)

end StackMachine.Text
