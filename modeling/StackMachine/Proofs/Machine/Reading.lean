import Mathlib.Data.List.Forall2
import Mathlib.Data.List.TakeWhile
import StackMachine.Machine.Console
import StackMachine.Proofs.Text.Bytes
import StackMachine.Proofs.Text.Cut

/-!
# Reading numbers

The console takes its input line by line, as words are needed.  What it answers can be told
from the whole input all the same: each line has results of its own, one for each of its words
or a single error if it is not text, and each number that is read takes the next of them.  What
is printed in between does not matter.  If all of the input is text, the lines do not matter
either: the results are those of the words of the text.

Main definitions:

- `linesOf`, the lines of some bytes;
- `wordResult`, what a word answers, `lineResults`, what a line does, and `results`, what the
  lines of some bytes do;
- `remaining`, what a console has still to answer;
- `Use` and `readings`, the use of a console and the numbers that are read.

Main results:

- Theorem `readNumber_remaining`: a number that is read takes the next result.
- Theorem `results_of_text`: the results of a text are those of its words.
- Theorem `results_weave`: they do not depend on the blanks between the words.
- Theorem `readings_results`: what any use of a console reads.
-/

namespace StackMachine.Console

open Text (lineFeed)

/-! ## Lines and their results -/

/-- The lines of some bytes.  A line ends after a line feed, or with the bytes. -/
def linesOf : List UInt8 → List (List UInt8)
  | [] => []
  | b :: bytes =>
    if b = lineFeed then [b] :: linesOf bytes
    else
      match linesOf bytes with
      | [] => [[b]]
      | line :: lines => (b :: line) :: lines

/-- What a word answers: the number it is the text of, or an error that quotes it. -/
def wordResult (word : String) : Except HostError Double :=
  (Double.ofText? word).elim (.error (.invalidInput word)) .ok

/-- What the words of a text answer. -/
def wordResults (text : List Char) : List (Except HostError Double) :=
  ((Text.words text).map String.ofList).map wordResult

/-- What a line answers: a result for each word, or one error if the line is not text. -/
def lineResults (line : List UInt8) : List (Except HostError Double) :=
  match Text.ofBytes? line with
  | some text => wordResults text.toList
  | none => [.error (.io "stream did not contain valid UTF-8")]

/-- What the lines of some bytes answer, one after the other. -/
def results (input : List UInt8) : List (Except HostError Double) :=
  (linesOf input).flatMap lineResults

/-- The console reads a word as what it answers. -/
theorem parseWord_eq : parseWord = wordResult := by
  funext word
  unfold parseWord wordResult
  cases Double.ofText? word <;> rfl

/-- A line feed ends the first line. -/
theorem linesOf_append_lineFeed {line : List UInt8} (hline : lineFeed ∉ line) (rest : List UInt8) :
    linesOf (line ++ lineFeed :: rest) = (line ++ [lineFeed]) :: linesOf rest := by
  induction line with
  | nil => simp [linesOf]
  | cons b line ih =>
    rw [List.mem_cons, not_or] at hline
    simp [linesOf, Ne.symm hline.1, ih hline.2]

/-- Without a line feed there is one line. -/
theorem linesOf_of_notMem {line : List UInt8} (hne : line ≠ []) (hline : lineFeed ∉ line) :
    linesOf line = [line] := by
  induction line with
  | nil => exact absurd rfl hne
  | cons b line ih =>
    rw [List.mem_cons, not_or] at hline
    cases line with
    | nil => simp [linesOf, Ne.symm hline.1]
    | cons c line => rw [linesOf, if_neg (Ne.symm hline.1), ih (by simp) hline.2]

theorem bne_lineFeed {line : List UInt8} (hline : lineFeed ∉ line) :
    ∀ b ∈ line, (b != 10) = true := by
  intro b hb
  rw [bne_iff_ne]
  rintro rfl
  exact hline hb

/-- The console takes the bytes up to the first line feed, and this one. -/
theorem firstLine_append {line : List UInt8} (hline : lineFeed ∉ line) (rest : List UInt8) :
    firstLine (line ++ lineFeed :: rest) = line ++ [lineFeed] ∧
      afterFirstLine (line ++ lineFeed :: rest) = rest := by
  have htake : (line ++ lineFeed :: rest).takeWhile (· != 10) = line := by
    rw [List.takeWhile_append_of_pos (bne_lineFeed hline), List.takeWhile_cons_of_neg (by decide),
      List.append_nil]
  have hdrop : (line ++ lineFeed :: rest).dropWhile (· != 10) = lineFeed :: rest := by
    rw [List.dropWhile_append_of_pos (bne_lineFeed hline), List.dropWhile_cons_of_neg (by decide)]
  refine ⟨?_, by rw [afterFirstLine, hdrop]; rfl⟩
  unfold firstLine
  rw [htake]
  exact List.take_length_add_append 1

/-- The console takes all bytes if there is no line feed among them. -/
theorem firstLine_of_notMem {line : List UInt8} (hline : lineFeed ∉ line) :
    firstLine line = line ∧ afterFirstLine line = [] := by
  have htake : line.takeWhile (· != 10) = line :=
    List.takeWhile_eq_self_iff.mpr (bne_lineFeed hline)
  have hdrop : line.dropWhile (· != 10) = [] :=
    List.dropWhile_eq_nil_iff.mpr (bne_lineFeed hline)
  refine ⟨?_, by rw [afterFirstLine, hdrop]; rfl⟩
  unfold firstLine
  rw [htake]
  exact List.take_of_length_le (Nat.le_succ _)

/-- The first line and the bytes after it are what the console takes. -/
theorem linesOf_eq_cons {input : List UInt8} (hne : input ≠ []) :
    linesOf input = firstLine input :: linesOf (afterFirstLine input) := by
  by_cases hmem : lineFeed ∈ input
  · obtain ⟨line, rest, rfl, hline⟩ := List.eq_append_cons_of_mem hmem
    obtain ⟨hfirst, hafter⟩ := firstLine_append hline rest
    rw [hfirst, hafter, linesOf_append_lineFeed hline]
  · obtain ⟨hfirst, hafter⟩ := firstLine_of_notMem hmem
    rw [hfirst, hafter, linesOf_of_notMem hne hmem]
    rfl

/-- The results of the first line come first. -/
theorem results_eq_append {input : List UInt8} (hne : input ≠ []) :
    results input = lineResults (firstLine input) ++ results (afterFirstLine input) := by
  rw [results, linesOf_eq_cons hne, List.flatMap_cons]
  rfl

/-! ## Reading -/

/-- What a console has still to answer. -/
def remaining (c : Console) : List (Except HostError Double) :=
  c.pending.map wordResult ++ results c.input

/-- The next word, the words left on its line and the bytes left are what the lines answer.
Without a word there is an error: that of a line, or the end of the input. -/
theorem nextWord_results (input : List UInt8) :
    ((nextWord input).1 >>= wordResult) = (results input).head?.getD (.error .endOfInput) ∧
      (nextWord input).2.1.map wordResult ++ results (nextWord input).2.2 =
        (results input).tail := by
  fun_induction nextWord input with
  | case1 => exact ⟨rfl, rfl⟩
  | case2 b bytes rest hnone =>
    have hresults := results_eq_append (List.cons_ne_nil b bytes)
    rw [lineResults, hnone] at hresults
    rw [hresults]
    exact ⟨rfl, rfl⟩
  | case3 b bytes rest line hline hwords ih =>
    -- The line is blank, so its results are those of the lines after it.
    have hresults := results_eq_append (List.cons_ne_nil b bytes)
    rw [lineResults, hline] at hresults
    dsimp only at hresults
    rw [wordResults, hwords, List.map_nil, List.nil_append] at hresults
    rw [hresults]
    exact ih
  | case4 b bytes rest line hline word words hwords =>
    have hresults := results_eq_append (List.cons_ne_nil b bytes)
    rw [lineResults, hline] at hresults
    dsimp only at hresults
    rw [wordResults, hwords, List.map_cons, List.cons_append] at hresults
    rw [hresults]
    exact ⟨rfl, rfl⟩

/-- A number that is read takes the next result, or reports the end of the input. -/
theorem readNumber_remaining (c : Console) :
    c.readNumber.1 = c.remaining.head?.getD (.error .endOfInput) ∧
      c.readNumber.2.remaining = c.remaining.tail := by
  unfold readNumber remaining
  rw [parseWord_eq]
  cases hpending : c.pending with
  | cons word words => exact ⟨rfl, rfl⟩
  | nil =>
    obtain ⟨hfirst, hrest⟩ := nextWord_results c.input
    rw [List.map_nil, List.nil_append, ← hfirst, ← hrest]
    rcases nextWord c.input with ⟨word | word, words, rest⟩
    · exact ⟨rfl, rfl⟩
    · exact ⟨rfl, rfl⟩

/-- What is printed does not change what is read. -/
theorem printNumber_remaining (c : Console) (v : Double) :
    (c.printNumber v).2.remaining = c.remaining := by
  unfold printNumber
  split <;> rfl

/-! ## Uses of a console -/

/-- One use of a console. -/
inductive Use where
  | read
  | write (v : Double)
deriving DecidableEq

/-- The answers to the numbers that are read while a console is used, in order. -/
def readings (c : Console) : List Use → List (Except HostError Double)
  | [] => []
  | .read :: uses => c.readNumber.1 :: readings c.readNumber.2 uses
  | .write v :: uses => readings (c.printNumber v).2 uses

/-- The numbers that are read are what the console had to answer, and after these the end of
the input. -/
theorem readings_remaining (c : Console) (uses : List Use) :
    c.readings uses = (List.range (uses.count .read)).map fun i =>
      (c.remaining[i]?).getD (.error .endOfInput) := by
  induction uses generalizing c with
  | nil => rfl
  | cons use uses ih =>
    cases use with
    | read =>
      obtain ⟨hfirst, hrest⟩ := readNumber_remaining c
      rw [readings, ih, hfirst, hrest, List.count_cons_self, List.range_succ_eq_map, List.map_cons,
        List.map_map]
      simp [Function.comp_def, List.head?_eq_getElem?]
    | write v =>
      rw [readings, ih, printNumber_remaining, List.count_cons_of_ne (by simp)]

/-! ## Inputs that are text -/

/-- A line that is text answers with the results of its words. -/
theorem lineResults_encode (cs : List Char) : lineResults (Text.encode cs) = wordResults cs := by
  rw [lineResults, Text.ofBytes?_encode]
  dsimp only
  rw [String.toList_ofList]

/-- A line feed divides words. -/
theorem wordResults_append_newline (line cs : List Char) :
    wordResults (line ++ '\n' :: cs) = wordResults line ++ wordResults cs := by
  rw [wordResults, Text.words_append rfl, List.map_append, List.map_append]
  rfl

/-- The results of a text are those of its words; `line` is what is known of a line that has
not ended. -/
theorem results_encode_append {line : List Char} (hline : '\n' ∉ line) (cs : List Char) :
    results (Text.encode (line ++ cs)) = wordResults (line ++ cs) := by
  induction cs generalizing line with
  | nil =>
    rw [List.append_nil]
    have hbytes : lineFeed ∉ Text.encode line := fun hmem => hline (Text.lineFeed_mem_encode hmem)
    by_cases hnil : Text.encode line = []
    · rw [← lineResults_encode, hnil]
      rfl
    · rw [results, linesOf_of_notMem hnil hbytes, List.flatMap_singleton, lineResults_encode]
  | cons c cs ih =>
    by_cases hc : c = '\n'
    · subst hc
      have hbytes : lineFeed ∉ Text.encode line :=
        fun hmem => hline (Text.lineFeed_mem_encode hmem)
      have hencode : Text.encode (line ++ '\n' :: cs) =
          Text.encode line ++ lineFeed :: Text.encode cs := by
        rw [Text.encode_append]
        rfl
      have hfirst : Text.encode line ++ [lineFeed] = Text.encode (line ++ ['\n']) := by
        rw [Text.encode_append]
        rfl
      have hrest : results (Text.encode cs) = wordResults cs := @ih [] List.not_mem_nil
      have hempty : wordResults [] = [] := rfl
      rw [hencode, results, linesOf_append_lineFeed hbytes, List.flatMap_cons, hfirst,
        lineResults_encode, wordResults_append_newline, wordResults_append_newline, hempty,
        List.append_nil, ← hrest]
      rfl
    · have hnext := @ih (line ++ [c]) (by simp [hline, Ne.symm hc])
      rwa [List.append_assoc, List.singleton_append] at hnext

/-- The results of an input that is text are those of its words. -/
theorem results_of_text {input : List UInt8} {text : String}
    (htext : Text.ofBytes? input = some text) : results input = wordResults text.toList := by
  rw [Text.ofBytes?_eq_some_iff.mp htext]
  exact results_encode_append List.not_mem_nil text.toList

/-- The words between blanks answer one after the other, on a line as in a whole input. -/
theorem results_weave {bytes : List UInt8} {pieces : List (List Char)} {blanks : List Char}
    (hlength : pieces.length = blanks.length + 1)
    (hpieces : ∀ piece ∈ pieces, ∀ c ∈ piece, Text.isBlank c = false)
    (hblanks : ∀ c ∈ blanks, Text.isBlank c = true)
    (htext : Text.ofBytes? bytes = some (String.ofList (Text.weave pieces blanks))) :
    lineResults bytes =
        ((pieces.filter fun piece => !piece.isEmpty).map String.ofList).map wordResult ∧
      results bytes = lineResults bytes := by
  have hline : lineResults bytes = wordResults (Text.weave pieces blanks) := by
    rw [lineResults, htext]
    dsimp only
    rw [String.toList_ofList]
  have hall : results bytes = wordResults (Text.weave pieces blanks) := by
    rw [results_of_text htext, String.toList_ofList]
  rw [hall, hline]
  refine ⟨?_, rfl⟩
  rw [wordResults, Text.words_weave hlength hpieces hblanks]

/-- Whatever is printed in between, and whether the host takes it or not: the numbers that are
read are the results of the lines of the input, one after the other, and after these the end of
the input.  A line that is not text has one result, an error.  On a line that is text each word
has one: the number that the word is the text of, or an error that quotes the word if it is the
text of none.  For an input that is text the results are those of its words, and it does not
matter at which blanks the words are divided: those between which they stand may be line feeds
or not. -/
theorem readings_results (input : List UInt8) (host : List (Option String)) (uses : List Use) :
    readings { ofInput input with answers := host } uses =
        (List.range (uses.count .read)).map (fun i =>
          ((results input)[i]?).getD (.error .endOfInput)) ∧
      (∀ line, Text.ofBytes? line = none →
        lineResults line = [.error (.io "stream did not contain valid UTF-8")]) ∧
      (∀ text, Text.ofBytes? input = some text → results input = wordResults text.toList) ∧
      ∀ bytes pieces blanks, pieces.length = blanks.length + 1 →
        (∀ piece ∈ pieces, ∀ c ∈ piece, Text.isBlank c = false) →
        (∀ c ∈ blanks, Text.isBlank c = true) →
        Text.ofBytes? bytes = some (String.ofList (Text.weave pieces blanks)) →
          results bytes = lineResults bytes ∧
          List.Forall₂ (fun word r => (∀ v, Double.ofText? word = some v → r = .ok v) ∧
              (Double.ofText? word = none → r = .error (.invalidInput word)))
            ((pieces.filter fun piece => !piece.isEmpty).map String.ofList) (lineResults bytes) := by
  refine ⟨readings_remaining _ uses, fun line hline => ?_, fun text htext => results_of_text htext,
    ?_⟩
  · rw [lineResults, hline]
  · intro bytes pieces blanks hlength hpieces hblanks htext
    obtain ⟨hwords, hall⟩ := results_weave hlength hpieces hblanks htext
    refine ⟨hall, ?_⟩
    rw [hwords, List.forall₂_map_right_iff, List.forall₂_same]
    intro word _
    refine ⟨fun v hv => ?_, fun hnone => ?_⟩
    · rw [wordResult, hv]
      rfl
    · rw [wordResult, hnone]
      rfl

/-- Four lines: words with a wide blank between two of them, bytes that are not text, a blank
line, and a last line that does not end. -/
def mixedInput : List UInt8 :=
  Text.encode "1 twelve\u3000-2.5e1\n".toList ++ [0xff, 0x31, 0x20, 0x32, lineFeed] ++
    Text.encode " \t\n nan".toList

/-- From these lines seven numbers are read, and two are printed in between, of which the host
refuses the first.  The word that is no number is quoted, the bytes that are not text are
skipped with one error, and after the last word the input is at its end.  In another input the
words are divided by line feeds only. -/
theorem readings_results_mixedExample :
    readings { ofInput mixedInput with answers := [some "no room"] }
        [.read, .read, .write Double.zero, .read, .read, .write Double.zero, .read, .read, .read] =
      [.ok ⟨0x3ff0000000000000⟩, .error (.invalidInput "twelve"), .ok ⟨0xc039000000000000⟩,
        .error (.io "stream did not contain valid UTF-8"), .ok ⟨0x7ff8000000000000⟩,
        .error .endOfInput, .error .endOfInput] ∧
      results (Text.encode "1\n\nx\n-25".toList) =
        [.ok ⟨0x3ff0000000000000⟩, .error (.invalidInput "x"), .ok ⟨0xc039000000000000⟩] := by
  constructor
  · rw [(readings_results _ _ _).1]
    decide +kernel
  · have hpieces : ∀ piece ∈ [['1'], [], ['x'], ['-', '2', '5']], ∀ c ∈ piece,
        Text.isBlank c = false := by
      simp only [List.forall_mem_cons, List.not_mem_nil, false_implies, implies_true]
      decide
    have hblanks : ∀ c ∈ ['\n', '\n', '\n'], Text.isBlank c = true := by
      simp only [List.forall_mem_cons, List.not_mem_nil, false_implies, implies_true]
      decide
    obtain ⟨hresults, hwords⟩ := (readings_results [] [] []).2.2.2
      (Text.encode "1\n\nx\n-25".toList) _ _ rfl hpieces hblanks (by decide +kernel)
    rw [hresults]
    generalize lineResults _ = answered at hwords
    obtain - | ⟨hone, - | ⟨hx, - | ⟨hlast, hend⟩⟩⟩ := hwords
    obtain rfl := List.forall₂_nil_left_iff.mp hend
    rw [hone.1 ⟨0x3ff0000000000000⟩ (by decide +kernel), hx.2 (by decide +kernel),
      hlast.1 ⟨0xc039000000000000⟩ (by decide +kernel)]

end StackMachine.Console
