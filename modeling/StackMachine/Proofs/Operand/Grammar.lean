import Mathlib.Data.List.TakeWhile
import StackMachine.Operand.Notation

/-!
# The grammar of addresses

A memory operand is written in brackets: a register, a register plus a displacement, or a
displacement, with blanks wherever two parts meet and after the closing bracket.  The reader
tries one form after the other and goes back when it fails, and it skips blanks before each
part.  Whatever characters a text has, the reader accepts exactly the texts of this grammar.

Main definitions:

- `Writes`, the digits of a number;
- `Contents`, what may stand between brackets;
- `IsAddress`, the texts of an address.

Main results:

- Theorem `readContents_eq_some_iff`: what is read up to a closing bracket.
- Theorem `readAddress?_eq_some_iff`: which texts are read as an address.
- Theorem `parse_bracketed`: what a text in brackets denotes, and when it is refused.
-/

namespace StackMachine

/-! ## Names of registers -/

namespace Register

theorem ofName?_name (r : Register) : ofName? r.name = some r := by
  cases r <;> decide

theorem name_of_ofName? {name : String} {r : Register} (hr : ofName? name = some r) :
    r.name = name := by
  simpa using List.find?_some hr

/-- The names of registers all start with the same character. -/
theorem toList_name (r : Register) : ∃ b c, r.name.toList = ['r', b, c] := by
  cases r <;> exact ⟨_, _, rfl⟩

end Register

namespace Operand

/-! ## The grammar -/

/-- Blanks, or nothing. -/
def Blanks (w : List Char) : Prop := ∀ c ∈ w, Text.isBlank c = true

/-- One or more digits that write a number in base ten.  Zeros may stand in front. -/
structure Writes (digits : List Char) (n : Nat) : Prop where
  ne_nil : digits ≠ []
  isDigit : ∀ c ∈ digits, c.isDigit = true
  value_eq : Nat.ofDigitChars 10 digits 0 = n

/-- What may stand between the brackets of an address. -/
inductive Contents : List Char → Option Register → Nat → Prop where
  | register {w w' : List Char} (r : Register) (hw : Blanks w) (hw' : Blanks w') :
    Contents (w ++ (r.name.toList ++ w')) (some r) 0
  | sum {w w' u u' digits : List Char} {n : Nat} (r : Register) (hw : Blanks w) (hw' : Blanks w')
      (hu : Blanks u) (hdigits : Writes digits n) (hu' : Blanks u') :
    Contents (w ++ (r.name.toList ++ (w' ++ '+' :: (u ++ (digits ++ u'))))) (some r) n
  | displacement {w w' digits : List Char} {n : Nat} (hw : Blanks w) (hdigits : Writes digits n)
      (hw' : Blanks w') :
    Contents (w ++ (digits ++ w')) none n

/-- The texts of an address: its parts in brackets, and blanks after them. -/
def IsAddress (text : List Char) (base : Option Register) (n : Nat) : Prop :=
  ∃ contents w, Contents contents base n ∧ Blanks w ∧ text = '[' :: (contents ++ ']' :: w)

/-! ## Blanks -/

theorem isBlank_of_isDigit {c : Char} (hc : c.isDigit = true) : Text.isBlank c = false := by
  have hrange : 48 ≤ c.toNat ∧ c.toNat ≤ 57 := by
    simpa [Char.isDigit, UInt32.le_iff_toNat_le] using hc
  simp only [Text.isBlank, Bool.or_eq_false_iff, Bool.and_eq_false_iff, decide_eq_false_iff_not,
    beq_eq_false_iff_ne]
  omega

theorem isDigit_of_isBlank {c : Char} (hc : Text.isBlank c = true) : c.isDigit = false := by
  by_contra hdigit
  rw [isBlank_of_isDigit (by simpa using hdigit)] at hc
  cases hc

theorem trimLeft_cons {c : Char} (hc : Text.isBlank c = false) (cs : List Char) :
    Text.trimLeft (c :: cs) = c :: cs :=
  List.dropWhile_cons_of_neg (by simp [hc])

theorem trimLeft_append {w : List Char} (hw : Blanks w) (text : List Char) :
    Text.trimLeft (w ++ text) = Text.trimLeft text :=
  List.dropWhile_append_of_pos hw

/-- Only blanks are trimmed altogether. -/
theorem isEmpty_trimLeft {text : List Char} :
    (Text.trimLeft text).isEmpty = true ↔ Blanks text := by
  rw [List.isEmpty_iff]
  exact List.dropWhile_eq_nil_iff

/-- A text is some blanks and what is left without them. -/
theorem exists_blanks (text : List Char) : ∃ w, Blanks w ∧ text = w ++ Text.trimLeft text :=
  ⟨text.takeWhile Text.isBlank, fun _ hc => List.mem_takeWhile_imp hc,
    List.takeWhile_append_dropWhile.symm⟩

/-! ## Parts of an address -/

section Readers

variable {w text rest : List Char} {r : Register} {n : Nat}

/-! Every reader skips the blanks before its part. -/

/-- Blanks before a character are skipped. -/
theorem readChar?_append (hw : Blanks w) (c : Char) (text : List Char) :
    readChar? c (w ++ text) = readChar? c text := by
  rw [readChar?, readChar?, trimLeft_append hw]

theorem readRegister?_append (hw : Blanks w) (text : List Char) :
    readRegister? (w ++ text) = readRegister? text := by
  rw [readRegister?, readRegister?, trimLeft_append hw]

theorem readNatural?_append (hw : Blanks w) (text : List Char) :
    readNatural? (w ++ text) = readNatural? text := by
  rw [readNatural?, readNatural?, trimLeft_append hw]

theorem readChar?_cons {c : Char} (hc : Text.isBlank c = false) (cs : List Char) :
    readChar? c (c :: cs) = some cs := by
  simp [readChar?, trimLeft_cons hc]

/-- A character is read after blanks only. -/
theorem blanks_of_readChar? {c : Char} (hread : readChar? c text = some rest) :
    ∃ w, Blanks w ∧ text = w ++ c :: rest := by
  obtain ⟨w, hw, htext⟩ := exists_blanks text
  refine ⟨w, hw, ?_⟩
  unfold readChar? at hread
  split at hread
  · cases hread
  · rename_i d rest' htrim
    split at hread
    · rename_i hd
      cases hread
      rw [← hd, ← htrim]
      exact htext
    · cases hread

/-- The name of a register is read, whatever follows. -/
theorem readRegister?_name (r : Register) (cs : List Char) :
    readRegister? (r.name.toList ++ cs) = some (r, cs) := by
  cases r <;> rfl

/-- A register is read after blanks only. -/
theorem blanks_of_readRegister? (hread : readRegister? text = some (r, rest)) :
    ∃ w, Blanks w ∧ text = w ++ (r.name.toList ++ rest) := by
  obtain ⟨w, hw, htext⟩ := exists_blanks text
  refine ⟨w, hw, ?_⟩
  unfold readRegister? at hread
  split at hread
  · rename_i a b c rest' htrim
    simp only [Option.map_eq_some_iff, Prod.mk.injEq] at hread
    obtain ⟨r', hr, rfl, rfl⟩ := hread
    have hname : r'.name.toList = [a, b, c] := by
      rw [Register.name_of_ofName? hr, String.toList_ofList]
    rw [hname, htext, htrim]
    rfl
  · cases hread

/-- No register starts with a digit. -/
theorem readRegister?_of_isDigit {c : Char} (hc : c.isDigit = true) (cs : List Char) :
    readRegister? (c :: cs) = none := by
  by_contra hsome
  obtain ⟨⟨r, rest⟩, hread⟩ := Option.ne_none_iff_exists'.mp hsome
  obtain ⟨w, hw, htext⟩ := blanks_of_readRegister? hread
  obtain ⟨b, c', hname⟩ := r.toList_name
  have hr : Text.isBlank 'r' = false := by decide
  have htrim := congrArg Text.trimLeft htext
  rw [trimLeft_append hw, hname, List.cons_append, trimLeft_cons hr,
    trimLeft_cons (isBlank_of_isDigit hc), List.cons.injEq] at htrim
  rw [htrim.1] at hc
  exact absurd hc (by decide)

/-- Digits are read up to what is no digit, if their number fits a word. -/
theorem readNatural?_digits {digits : List Char} (hdigits : Writes digits n) (hn : n < wordValues)
    (hrest : ∀ c ∈ rest.head?, c.isDigit = false) :
    readNatural? (digits ++ rest) = some (n, rest) := by
  have htrim : Text.trimLeft (digits ++ rest) = digits ++ rest := by
    cases digits with
    | nil => exact absurd rfl hdigits.ne_nil
    | cons d ds => exact trimLeft_cons (isBlank_of_isDigit (hdigits.isDigit d (by simp))) _
  have hstop : rest.takeWhile Char.isDigit = [] ∧ rest.dropWhile Char.isDigit = rest := by
    cases rest with
    | nil => exact ⟨rfl, rfl⟩
    | cons c cs => simp [hrest c rfl]
  have htake : (digits ++ rest).takeWhile Char.isDigit = digits := by
    rw [List.takeWhile_append_of_pos hdigits.isDigit, hstop.1, List.append_nil]
  have hdrop : (digits ++ rest).dropWhile Char.isDigit = rest := by
    rw [List.dropWhile_append_of_pos hdigits.isDigit, hstop.2]
  simp [readNatural?, htrim, htake, hdrop, hdigits.ne_nil, hdigits.value_eq, hn]

/-- A number that fits into a word is read after blanks only, from its digits. -/
theorem blanks_of_readNatural? (hread : readNatural? text = some (n, rest)) :
    n < wordValues ∧ ∃ w digits, Blanks w ∧ Writes digits n ∧ text = w ++ (digits ++ rest) := by
  obtain ⟨w, hw, htext⟩ := exists_blanks text
  unfold readNatural? at hread
  dsimp only at hread
  split at hread
  · cases hread
  · rename_i hfits
    simp only [Bool.or_eq_true, List.isEmpty_iff, decide_eq_true_eq, not_or, Nat.not_le] at hfits
    cases hread
    refine ⟨hfits.2, w, _, hw, ⟨hfits.1, ?_, rfl⟩, ?_⟩
    · intro c hc
      exact List.mem_takeWhile_imp hc
    · rw [List.takeWhile_append_dropWhile]
      exact htext

/-- Blanks and a closing bracket end the digits before them. -/
theorem isDigit_head?_blanks (hw : Blanks w) (rest : List Char) :
    ∀ c ∈ (w ++ ']' :: rest).head?, c.isDigit = false := by
  intro c hc
  cases w with
  | nil =>
    cases hc
    decide
  | cons b bs =>
    cases hc
    exact isDigit_of_isBlank (hw _ List.mem_cons_self)

end Readers

/-! ## Addresses -/

section Addresses

variable {text rest : List Char} {base : Option Register} {n : Nat}

/-- An address with a base that is read up to its bracket is one that the grammar allows. -/
theorem contents_of_readBased? (hread : readBased? text = some ((base, n), rest)) :
    n < wordValues ∧ ∃ contents, Contents contents base n ∧ text = contents ++ ']' :: rest := by
  simp only [readBased?, Option.bind_eq_bind, Option.bind_eq_some_iff, Prod.exists,
    Option.pure_def, Option.some.injEq, Prod.mk.injEq] at hread
  obtain ⟨r, afterName, hname, n', afterOffset, hoffset, rest', hclose, ⟨rfl, rfl⟩, rfl⟩ := hread
  obtain ⟨w, hw, rfl⟩ := blanks_of_readRegister? hname
  obtain ⟨v, hv, rfl⟩ := blanks_of_readChar? hclose
  unfold readOffset? at hoffset
  split at hoffset
  · rename_i afterPlus hplus
    obtain ⟨w', hw', rfl⟩ := blanks_of_readChar? hplus
    obtain ⟨hn, u, digits, hu, hdigits, rfl⟩ := blanks_of_readNatural? hoffset
    refine ⟨hn, _, .sum r hw hw' hu hdigits hv, ?_⟩
    simp only [List.append_assoc, List.cons_append]
  · cases hoffset
    refine ⟨by decide, _, .register r hw hv, ?_⟩
    simp only [List.append_assoc]

/-- So is an address without a base. -/
theorem contents_of_readPlain? (hread : readPlain? text = some ((base, n), rest)) :
    n < wordValues ∧ ∃ contents, Contents contents base n ∧ text = contents ++ ']' :: rest := by
  simp only [readPlain?, Option.bind_eq_bind, Option.bind_eq_some_iff, Prod.exists,
    Option.pure_def, Option.some.injEq, Prod.mk.injEq] at hread
  obtain ⟨n', afterDigits, hdigits, rest', hclose, ⟨rfl, rfl⟩, rfl⟩ := hread
  obtain ⟨hn, w, digits, hw, hwrites, rfl⟩ := blanks_of_readNatural? hdigits
  obtain ⟨w', hw', rfl⟩ := blanks_of_readChar? hclose
  refine ⟨hn, _, .displacement hw hwrites hw', ?_⟩
  simp only [List.append_assoc]

/-- What is read up to a closing bracket, by the first reader that can or the second. -/
theorem readContents_eq_some_iff :
    (readBased? text).or (readPlain? text) = some ((base, n), rest) ↔
      n < wordValues ∧ ∃ contents, Contents contents base n ∧ text = contents ++ ']' :: rest := by
  have hclose (cs : List Char) : readChar? ']' (']' :: cs) = some cs :=
    readChar?_cons (by decide) cs
  have hplus (cs : List Char) : readChar? '+' ('+' :: cs) = some cs :=
    readChar?_cons (by decide) cs
  constructor
  · intro hread
    rcases Option.or_eq_some_iff.mp hread with hbased | ⟨_, hplain⟩
    · exact contents_of_readBased? hbased
    · exact contents_of_readPlain? hplain
  · rintro ⟨hn, contents, hcontents, rfl⟩
    cases hcontents with
    | @register w w' r hw hw' =>
      have htrim : Text.trimLeft (']' :: rest) = ']' :: rest := trimLeft_cons (by decide) rest
      have hnone : readChar? '+' (']' :: rest) = none := by
        simp [readChar?, htrim]
      have hbased : readBased? (w ++ (r.name.toList ++ w') ++ ']' :: rest) =
          some ((some r, 0), rest) := by
        simp only [readBased?, List.append_assoc, readRegister?_append hw, readRegister?_name,
          Option.bind_eq_bind, Option.bind_some, readOffset?, readChar?_append hw', hnone, hclose,
          Option.pure_def]
      rw [hbased, Option.some_or]
    | @sum w w' u u' digits _ r hw hw' hu hdigits hu' =>
      have hnatural := readNatural?_digits hdigits hn (isDigit_head?_blanks hu' rest)
      have hbased : readBased? (w ++ (r.name.toList ++ (w' ++ '+' :: (u ++ (digits ++ u')))) ++
          ']' :: rest) = some ((some r, n), rest) := by
        simp only [readBased?, List.append_assoc, List.cons_append, readRegister?_append hw,
          readRegister?_name, Option.bind_eq_bind, Option.bind_some, readOffset?,
          readChar?_append hw', hplus, readNatural?_append hu, hnatural, readChar?_append hu',
          hclose, Option.pure_def]
      rw [hbased, Option.some_or]
    | @displacement w w' digits _ hw hdigits hw' =>
      have hnatural := readNatural?_digits hdigits hn (isDigit_head?_blanks hw' rest)
      have hbased : readBased? (w ++ (digits ++ w') ++ ']' :: rest) = none := by
        cases digits with
        | nil => exact absurd rfl hdigits.ne_nil
        | cons d ds =>
          have hd : d.isDigit = true := hdigits.isDigit d List.mem_cons_self
          simp only [readBased?, List.append_assoc, List.cons_append, readRegister?_append hw,
            readRegister?_of_isDigit hd, Option.bind_eq_bind, Option.bind_none]
      have hplain : readPlain? (w ++ (digits ++ w') ++ ']' :: rest) = some ((none, n), rest) := by
        simp only [readPlain?, List.append_assoc, readNatural?_append hw, hnatural,
          Option.bind_eq_bind, Option.bind_some, readChar?_append hw', hclose, Option.pure_def]
      rw [hbased, hplain, Option.none_or]

/-- Which texts after an opening bracket are read as an address. -/
theorem readAddress?_eq_some_iff :
    readAddress? ('[' :: text) = some (base, n) ↔
      n < wordValues ∧ IsAddress ('[' :: text) base n := by
  have hopen : readChar? '[' ('[' :: text) = some text := readChar?_cons (by decide) text
  simp only [readAddress?, hopen, Option.bind_eq_bind, Option.bind_some, Option.bind_eq_some_iff,
    Prod.exists]
  constructor
  · rintro ⟨base', n', rest, hread, hend⟩
    split at hend
    · rename_i hblanks
      cases hend
      obtain ⟨hn, contents, hcontents, rfl⟩ := readContents_eq_some_iff.mp hread
      exact ⟨hn, contents, rest, hcontents, isEmpty_trimLeft.mp hblanks, rfl⟩
    · cases hend
  · rintro ⟨hn, contents, w, hcontents, hw, htext⟩
    refine ⟨base, n, w, readContents_eq_some_iff.mpr ⟨hn, contents, hcontents, ?_⟩, ?_⟩
    · exact (List.cons.inj htext).2
    · exact if_pos (isEmpty_trimLeft.mpr hw)

end Addresses

/-! ## Tokens -/

/-- The names of all registers start with the same letter. -/
theorem ofName?_eq_none {token : String} (hhead : token.toList.head? ≠ some 'r') :
    Register.ofName? token = none := by
  by_contra hsome
  obtain ⟨r, hr⟩ := Option.ne_none_iff_exists'.mp hsome
  obtain ⟨b, c, hname⟩ := r.toList_name
  apply hhead
  rw [← Register.name_of_ofName? hr, hname]
  rfl

/-- A token that starts with a bracket is read as an address. -/
theorem parse_of_bracket {token : String} (hhead : token.toList.head? = some '[') :
    parse token = parseMemory token := by
  have hname : Register.ofName? token = none := ofName?_eq_none (by simp [hhead])
  simp only [parse, hname, hhead, if_true]

/-- A text is an address exactly when it can be read as one, with a displacement inside of the
memory. -/
theorem parseMemory_eq_ok_iff {token : String} {x : Operand} :
    parseMemory token = .ok x ↔
      ∃ (base : Option Register) (n : Nat) (h : n < ramSize),
        readAddress? token.toList = some (base, n) ∧ x = mem base ⟨n, h⟩ := by
  unfold parseMemory
  cases hread : readAddress? token.toList with
  | none => simp
  | some address =>
    obtain ⟨base, n⟩ := address
    by_cases hn : n < ramSize
    · simp only [hn, dif_pos, Except.ok.injEq, Option.some.injEq, Prod.mk.injEq]
      constructor
      · rintro rfl
        exact ⟨base, n, hn, ⟨rfl, rfl⟩, rfl⟩
      · rintro ⟨base', n', hn', ⟨rfl, rfl⟩, rfl⟩
        rfl
    · simp only [hn, dif_neg, not_false_eq_true, reduceCtorEq, false_iff, not_exists]
      rintro base' n' hn' ⟨haddress, _⟩
      cases haddress
      exact hn hn'

/-- An address is refused as an invalid memory operand that is quoted, with a remark if its
displacement is outside of memory. -/
theorem cause_of_parseMemory {token : String} {e : SourceError}
    (he : parseMemory token = .error e) :
    ∃ remark, e = .invalidMemoryOperand (token ++ remark) := by
  unfold parseMemory at he
  split at he
  · cases he
    exact ⟨"", by rw [String.append_empty]⟩
  · rename_i base n _
    split at he
    · cases he
    · cases he
      refine ⟨s!" (displacement {n} is outside RAM of {ramSize} cells)", ?_⟩
      simp [String.append_assoc, toString]

/-- A token that starts with a bracket denotes a memory operand exactly if it is an address in
the grammar whose displacement is inside of memory, and then the operand with its parts.  In
every other case it is refused as an invalid memory operand. -/
theorem parse_bracketed (token : String) (hhead : token.toList.head? = some '[') :
    (∀ x, parse token = .ok x ↔
      ∃ (base : Option Register) (n : Nat) (h : n < 10000),
        IsAddress token.toList base n ∧ x = mem base ⟨n, h⟩) ∧
    ((∀ base n, n < 10000 → ¬ IsAddress token.toList base n) →
      ∃ remark, parse token = .error (.invalidMemoryOperand (token ++ remark))) := by
  obtain ⟨text, htext⟩ : ∃ text, token.toList = '[' :: text := List.head?_eq_some_iff.mp hhead
  have haccepts : ∀ x, parse token = .ok x ↔
      ∃ (base : Option Register) (n : Nat) (h : n < 10000),
        IsAddress token.toList base n ∧ x = mem base ⟨n, h⟩ := by
    intro x
    rw [parse_of_bracket hhead, parseMemory_eq_ok_iff, htext]
    refine exists_congr fun base => exists_congr fun n => exists_congr fun hn => ?_
    have hfits : n < wordValues := by
      unfold ramSize at hn
      unfold wordValues
      omega
    rw [readAddress?_eq_some_iff, and_iff_right hfits]
  refine ⟨haccepts, ?_⟩
  intro hnone
  cases hparse : parse token with
  | ok x =>
    obtain ⟨base, n, hn, haddress, _⟩ := (haccepts x).mp hparse
    exact absurd haddress (hnone base n hn)
  | error e =>
    obtain ⟨remark, rfl⟩ := cause_of_parseMemory ((parse_of_bracket hhead).symm.trans hparse)
    exact ⟨remark, rfl⟩

/-- An address with blanks of several kinds and zeros in front of its displacement. -/
def spacedAddress : String := "[\u2003rbx +\u00a00042 ]\u3000"

/-- A text in brackets with a character of two bytes where a register could stand. -/
def accentedAddress : String := "[rä + 1]"

/-- The address with various blanks in it is read, and the text with the character of two bytes is
refused. -/
theorem parse_bracketed_examples :
    (IsAddress spacedAddress.toList (some .rbx) 42 ∧
      parse spacedAddress = .ok (mem (some .rbx) ⟨42, by decide⟩)) ∧
    (∀ base n, n < 10000 → ¬ IsAddress accentedAddress.toList base n) ∧
      ∃ remark, parse accentedAddress =
        .error (.invalidMemoryOperand (accentedAddress ++ remark)) := by
  have hspaced := parse_bracketed spacedAddress (by decide)
  have haccented := parse_bracketed accentedAddress (by decide)
  have hok : parse spacedAddress = .ok (mem (some .rbx) ⟨42, by decide⟩) := by decide +kernel
  have herror : parse accentedAddress = .error (.invalidMemoryOperand accentedAddress) := by
    decide +kernel
  have hnone : ∀ base n, n < 10000 → ¬ IsAddress accentedAddress.toList base n := by
    intro base n hn haddress
    have hparse := (haccented.1 _).mpr ⟨base, n, hn, haddress, rfl⟩
    rw [herror] at hparse
    cases hparse
  obtain ⟨base, n, hn, haddress, hx⟩ := (hspaced.1 _).mp hok
  cases hx
  exact ⟨⟨haddress, hok⟩, hnone, haccented.2 hnone⟩

end Operand

end StackMachine
