import StackMachine.Decimal.Fixed
import StackMachine.Decimal.Numeral
import StackMachine.Error
import StackMachine.Text.Split
import StackMachine.Text.Utf8

/-!
# The console

Numbers are read from the words of the input, which is taken line by line as words are
needed, and printed one to a line.  A line that is not text is skipped with an error.  The
host may refuse to print a number.
-/

namespace StackMachine

/-- The two streams of a console. -/
structure Console where
  /-- The bytes that have not been read. -/
  input : List UInt8
  /-- The words of the last line that have not been used. -/
  pending : List String
  /-- What has been printed. -/
  output : String
  /-- What the host answers to the numbers printed next, one after the other: why it refuses
  a number, or nothing.  After these it takes all. -/
  answers : List (Option String)
deriving DecidableEq

namespace Console

/-- A console with the given input, of a host that takes all numbers. -/
def ofInput (input : List UInt8) : Console := ⟨input, [], "", []⟩

/-- The first line of some bytes, with the line feed that ends it. -/
def firstLine (bytes : List UInt8) : List UInt8 :=
  let line := bytes.takeWhile (· != 10)
  bytes.take (line.length + 1)

/-- The bytes after the first line. -/
def afterFirstLine (bytes : List UInt8) : List UInt8 :=
  (bytes.dropWhile (· != 10)).drop 1

theorem afterFirstLine_length_lt {b : UInt8} {bytes : List UInt8} :
    (afterFirstLine (b :: bytes)).length < (b :: bytes).length := by
  have drop_le (l : List UInt8) : (l.dropWhile (· != 10)).length ≤ l.length :=
    (List.dropWhile_suffix _).length_le
  unfold afterFirstLine
  rw [List.dropWhile_cons]
  split
  · have := drop_le bytes
    simp only [List.length_drop, List.length_cons]
    omega
  · simp

/-- The number a word of the input stands for. -/
def parseWord (word : String) : Except HostError Double :=
  match Double.ofText? word with
  | some v => .ok v
  | none => .error (.invalidInput word)

/-- Takes the next word when no line is pending: the word or an error, the words left
on its line, and the bytes left. -/
def nextWord (input : List UInt8) : Except HostError String × List String × List UInt8 :=
  match input with
  | [] => (.error .endOfInput, [], [])
  | b :: bytes =>
    let rest := afterFirstLine (b :: bytes)
    match Text.ofBytes? (firstLine (b :: bytes)) with
    | none => (.error (.io "stream did not contain valid UTF-8"), [], rest)
    | some line =>
      match (Text.words line.toList).map String.ofList with
      | [] => nextWord rest
      | word :: words => (.ok word, words, rest)
termination_by input.length
decreasing_by exact afterFirstLine_length_lt

/-- Reads the next number. -/
def readNumber (c : Console) : Except HostError Double × Console :=
  match c.pending with
  | word :: words => (parseWord word, { c with pending := words })
  | [] =>
    match nextWord c.input with
    | (.ok word, words, rest) => (parseWord word, { c with pending := words, input := rest })
    | (.error e, words, rest) => (.error e, { c with pending := words, input := rest })

/-- The digits after the point of a printed number. -/
def places : Nat := 6

/-- The printed form of a number.  The sign of a NaN is shown. -/
def format (v : Double) : String :=
  if v.isNaN then (if v.negative then "-nan" else "nan") else v.toFixed places

/-- Prints a number on a line of its own. -/
def writeNumber (c : Console) (v : Double) : Console :=
  { c with output := c.output ++ format v ++ "\n" }

/-- Prints a number, unless the host refuses it. -/
def printNumber (c : Console) (v : Double) : Except HostError Unit × Console :=
  match c.answers with
  | [] => (.ok (), c.writeNumber v)
  | none :: answers => (.ok (), { c with answers }.writeNumber v)
  | some reason :: answers => (.error (.io reason), { c with answers })

end Console

end StackMachine
