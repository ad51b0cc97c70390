import StackMachine.Assembly.Routine
import StackMachine.Proofs.Fallible
import StackMachine.Proofs.Program.Stream

/-!
# Layouts of source texts

The layout of a source text puts its instruction lines one after the other from the start
of the code, and every label at a line or at the end.  The functions found in it are the
headers with the end marks after them.  What is said about where instructions are is said
about `sites`, an opcode with an offset, which lines and placed instructions have in common.

Main results:

- Theorem `laidOut_of_collect`: the lines of a layout follow one another.
- Theorem `label_of_collect`: a label stands for the offset of a line, or the end.
- Theorem `lookup_of_collectRoutines`: every header declares a function that ends just past
  the next end mark.
- Theorem `alternates_of_collectRoutines`: headers and end marks alternate.
-/

namespace StackMachine

open Fallible

/-! ## Sites -/

/-- An opcode at its offset. -/
abbrev Site := Opcode × Nat

/-- What an instruction is and where. -/
def Placed.site (d : Placed) : Site := (d.opcode, d.offset)

/-- What the instruction of a line is and where. -/
def Assembly.SourceLine.site (l : Assembly.SourceLine) : Site := (l.opcode, l.offset)

/-- The offset just past the first end mark. -/
def endAfter (sites : List Site) : Option Nat :=
  (sites.find? (·.1 == .endFunc)).map fun s => s.2 + s.1.size

/-- Whether an opcode heads or ends a function. -/
def Opcode.isBracket (op : Opcode) : Bool := op.isHeader || op == .endFunc

/-- Headers and end marks of functions alternate, from a header to an end mark. -/
def Alternates (ops : List Opcode) : Prop :=
  ∃ n, (ops.filter Opcode.isBracket).map Opcode.isHeader = (List.replicate n [true, false]).flatten

/-- Whether headers and end marks alternate from inside or outside of a function on. -/
def alternatesFrom (inside : Bool) : List Opcode → Bool
  | [] => !inside
  | op :: ops =>
    if op.isHeader then !inside && alternatesFrom true ops
    else if op = .endFunc then inside && alternatesFrom false ops
    else alternatesFrom inside ops

/-- A header has to be outside of functions, and what follows it is inside of one. -/
theorem alternatesFrom_header {op : Opcode} (hop : op.isHeader = true) (inside : Bool)
    (ops : List Opcode) :
    alternatesFrom inside (op :: ops) = (!inside && alternatesFrom true ops) := by
  simp [alternatesFrom, hop]

/-- An end mark has to be inside of a function, and what follows it is outside. -/
theorem alternatesFrom_endFunc (inside : Bool) (ops : List Opcode) :
    alternatesFrom inside (.endFunc :: ops) = (inside && alternatesFrom false ops) := by
  simp [alternatesFrom, Opcode.isHeader]

/-- Other instructions may be inside and outside. -/
theorem alternatesFrom_other {op : Opcode} (hop : op.isBracket = false) (inside : Bool)
    (ops : List Opcode) : alternatesFrom inside (op :: ops) = alternatesFrom inside ops := by
  simp only [Opcode.isBracket, Bool.or_eq_false_iff, beq_eq_false_iff_ne] at hop
  simp [alternatesFrom, hop]

theorem isBracket_cases (op : Opcode) :
    op.isHeader = true ∨ op = .endFunc ∨ op.isBracket = false := by
  cases op <;> simp [Opcode.isHeader, Opcode.isBracket]

/-- Headers and end marks are accepted one after the other exactly when they are pairs of one and
the other, after an end mark if a function is open at first. -/
theorem alternatesFrom_iff {inside : Bool} {ops : List Opcode} :
    alternatesFrom inside ops = true ↔
      ∃ n, (ops.filter Opcode.isBracket).map Opcode.isHeader =
        (if inside then [false] else []) ++ (List.replicate n [true, false]).flatten := by
  induction ops generalizing inside with
  | nil =>
    cases inside with
    | false => exact ⟨fun _ => ⟨0, rfl⟩, fun _ => rfl⟩
    | true => simp [alternatesFrom]
  | cons op ops ih =>
    rcases isBracket_cases op with hheader | rfl | hother
    · have hfilter : (op :: ops).filter Opcode.isBracket = op :: ops.filter Opcode.isBracket :=
        List.filter_cons_of_pos (by simp [Opcode.isBracket, hheader])
      rw [hfilter, List.map_cons, hheader, alternatesFrom_header hheader]
      cases inside with
      | true => simp
      | false =>
        rw [Bool.not_false, Bool.true_and, ih]
        constructor
        · rintro ⟨n, hn⟩
          exact ⟨n + 1, by simp [hn, List.replicate_succ]⟩
        · rintro ⟨n, hn⟩
          cases n with
          | zero => simp at hn
          | succ n => exact ⟨n, by simpa [List.replicate_succ] using hn⟩
    · have hfilter : (.endFunc :: ops).filter Opcode.isBracket =
          .endFunc :: ops.filter Opcode.isBracket := rfl
      rw [hfilter, List.map_cons, alternatesFrom_endFunc]
      cases inside with
      | true => simp [ih, Opcode.isHeader]
      | false =>
        constructor
        · intro hfalse
          cases hfalse
        · rintro ⟨n, hn⟩
          cases n <;> simp [List.replicate_succ, Opcode.isHeader] at hn
    · rw [List.filter_cons_of_neg (by simp [hother]), alternatesFrom_other hother, ih]

/-- The lists that alternate are those that are accepted from outside of functions. -/
theorem alternates_iff {ops : List Opcode} :
    Alternates ops ↔ alternatesFrom false ops = true := by
  simp [Alternates, alternatesFrom_iff]

namespace Assembly

open Program (placeFrom)

/-! ## Lines and labels -/

/-- One line is laid out, and then the others. -/
theorem collect_cons_eq_ok {labels : List (String × Nat)} {offset number : Nat}
    {line : List Char} {rest : List (List Char × Nat)} {layout : Layout} :
    collect labels offset ((line, number) :: rest) = .ok layout ↔
      ∃ statement, readLine number line = .ok statement ∧
        match statement with
        | .blank => collect labels offset rest = .ok layout
        | .label name _ =>
          labels.lookup name = none ∧ collect ((name, offset) :: labels) offset rest = .ok layout
        | .instruction op column operands =>
          ∃ tail, collect labels (offset + op.size) rest = .ok tail ∧
            layout = { tail with
              lines := ⟨number, offset, op, column, operands⟩ :: tail.lines } := by
  simp only [collect, bind_eq_ok]
  refine exists_congr fun statement => and_congr_right fun _ => ?_
  cases statement with
  | blank => rfl
  | label name column =>
    cases hlookup : labels.lookup name with
    | none => simp [hlookup]
    | some t => simp [hlookup]
  | instruction op column operands =>
    simp only [bind_eq_ok, pure_eq_ok]
    exact exists_congr fun tail => and_congr_right fun _ => eq_comm

/-- Lines that follow one another from an offset to an end. -/
def LaidOut (offset : Nat) : List SourceLine → Nat → Prop
  | [], finish => finish = offset
  | l :: ls, finish => l.offset = offset ∧ LaidOut l.next ls finish

/-- The lines of a layout follow one another. -/
theorem laidOut_of_collect {labels : List (String × Nat)} {offset : Nat}
    {numbered : List (List Char × Nat)} {layout : Layout}
    (hcollect : collect labels offset numbered = .ok layout) :
    LaidOut offset layout.lines layout.length := by
  induction numbered generalizing labels offset layout with
  | nil =>
    cases hcollect
    rfl
  | cons head rest ih =>
    rcases collect_cons_eq_ok.mp hcollect with ⟨statement, _, hrest⟩
    cases statement with
    | blank => exact ih hrest
    | label name column => exact ih hrest.2
    | instruction op column operands =>
      rcases hrest with ⟨tail, htail, rfl⟩
      exact ⟨rfl, ih htail⟩

/-- A label stands for the offset of a line, or the end. -/
theorem label_of_collect {labels : List (String × Nat)} {offset : Nat}
    {numbered : List (List Char × Nat)} {layout : Layout}
    (hcollect : collect labels offset numbered = .ok layout) {x : String × Nat}
    (hx : x ∈ layout.labels) :
    x ∈ labels ∨ x.2 = layout.length ∨ ∃ l ∈ layout.lines, l.offset = x.2 := by
  induction numbered generalizing labels offset layout with
  | nil =>
    cases hcollect
    exact Or.inl hx
  | cons head rest ih =>
    rcases collect_cons_eq_ok.mp hcollect with ⟨statement, _, hrest⟩
    cases statement with
    | blank => exact ih hrest hx
    | label name column =>
      rcases ih hrest.2 hx with hmem | hlater
      · rcases List.mem_cons.mp hmem with rfl | hold
        · -- A label is where the lines after it start.
          have hlaid := laidOut_of_collect hrest.2
          cases hlines : layout.lines with
          | nil =>
            rw [hlines] at hlaid
            exact Or.inr (Or.inl hlaid.symm)
          | cons l ls =>
            rw [hlines] at hlaid
            exact Or.inr (Or.inr ⟨l, List.mem_cons_self, hlaid.1⟩)
        · exact Or.inl hold
      · exact Or.inr hlater
    | instruction op column operands =>
      rcases hrest with ⟨tail, htail, rfl⟩
      rcases ih htail hx with hold | hend | ⟨l, hl, hoffset⟩
      · exact Or.inl hold
      · exact Or.inr (Or.inl hend)
      · exact Or.inr (Or.inr ⟨l, List.mem_cons_of_mem _ hl, hoffset⟩)

section LaidOut

variable {offset finish : Nat} {ls : List SourceLine}

/-- Lines that follow one another are between the first offset and the last. -/
theorem LaidOut.bounds (hlaid : LaidOut offset ls finish) :
    offset ≤ finish ∧ ∀ l ∈ ls, offset ≤ l.offset ∧ l.next ≤ finish := by
  induction ls generalizing offset with
  | nil => exact ⟨Nat.le_of_eq hlaid.symm, by simp⟩
  | cons l ls ih =>
    rcases hlaid with ⟨rfl, hlaid⟩
    rcases ih hlaid with ⟨hle, hrest⟩
    have hnext : l.offset ≤ l.next := Nat.le_add_right _ _
    refine ⟨hnext.trans hle, ?_⟩
    intro l' hl'
    rcases List.mem_cons.mp hl' with rfl | hl'
    · exact ⟨Nat.le_refl _, hle⟩
    · exact ⟨hnext.trans (hrest l' hl').1, (hrest l' hl').2⟩

/-- After a line comes another one, or the end. -/
theorem LaidOut.next (hlaid : LaidOut offset ls finish) :
    ∀ l ∈ ls, l.next = finish ∨ ∃ l' ∈ ls, l'.offset = l.next := by
  induction ls generalizing offset with
  | nil => simp
  | cons l ls ih =>
    rcases hlaid with ⟨rfl, hlaid⟩
    intro l' hl'
    rcases List.mem_cons.mp hl' with rfl | hl'
    · cases ls with
      | nil => exact Or.inl hlaid.symm
      | cons l'' ls => exact Or.inr ⟨l'', by simp, hlaid.1⟩
    · rcases ih hlaid l' hl' with hend | ⟨l'', hl'', hoffset⟩
      · exact Or.inl hend
      · exact Or.inr ⟨l'', List.mem_cons_of_mem _ hl'', hoffset⟩

/-- The lines after a line start past it. -/
theorem LaidOut.later {earlier later : List SourceLine} {l : SourceLine}
    (hlaid : LaidOut offset (earlier ++ l :: later) finish) : LaidOut l.next later finish := by
  induction earlier generalizing offset with
  | nil => exact hlaid.2
  | cons head earlier ih => exact ih hlaid.2

/-- Instructions with the opcodes of some lines are placed where the lines are. -/
theorem LaidOut.placeFrom {R : SourceLine → Instruction → Prop} {is : List Instruction}
    (hlaid : LaidOut offset ls finish) (hR : List.Forall₂ R ls is)
    (hop : ∀ l i, R l i → i.opcode = l.opcode) :
    List.Forall₂ (fun l d => d.site = l.site ∧ R l d.toInstruction) ls (placeFrom offset is) := by
  induction hR generalizing offset with
  | nil => exact List.Forall₂.nil
  | @cons l i ls is hli hR ih =>
    rcases hlaid with ⟨rfl, hlaid⟩
    refine List.Forall₂.cons ⟨?_, hli⟩ (ih ?_)
    · simp [Placed.site, SourceLine.site, hop l i hli]
    · rwa [hop l i hli]

/-- Instructions with the opcodes of some lines take the bytes that the lines do. -/
theorem LaidOut.finish_eq {is : List Instruction} (hlaid : LaidOut offset ls finish)
    (hops : List.Forall₂ (fun l i => i.opcode = l.opcode ∧ i.HasArity) ls is) :
    finish = offset + (is.flatMap Instruction.encode).length := by
  induction hops generalizing offset with
  | nil => exact hlaid
  | @cons l i ls is hli _ ih =>
    rcases hlaid with ⟨rfl, hlaid⟩
    rw [ih hlaid, SourceLine.next, List.flatMap_cons, List.length_append,
      Instruction.length_encode hli.2, hli.1, Nat.add_assoc]

end LaidOut

/-- Lines and placed instructions that correspond are the same sites. -/
theorem map_site_eq {R : SourceLine → Placed → Prop} {ls : List SourceLine} {ds : List Placed}
    (hR : List.Forall₂ (fun l d => d.site = l.site ∧ R l d) ls ds) :
    ds.map Placed.site = ls.map SourceLine.site := by
  induction hR with
  | nil => rfl
  | cons hld _ ih => rw [List.map_cons, List.map_cons, hld.1, ih]

/-- Instructions at the sites of lines have the opcodes of the lines. -/
theorem map_opcode_of_site {ls : List SourceLine} {ds : List Placed}
    (hsites : ds.map Placed.site = ls.map SourceLine.site) :
    (ds.map fun d => d.opcode) = ls.map SourceLine.opcode := by
  have hfst := congrArg (List.map Prod.fst) hsites
  simpa [Placed.site, SourceLine.site, Function.comp_def] using hfst

/-! ## Functions -/

section Routines

variable {functions fs : List (String × Extent)} {current : Option OpenRoutine} {l : SourceLine}
  {ls : List SourceLine}

/-- A header opens a function exactly when none is open and it has a name that no function has yet.
-/
theorem openRoutine_eq_ok {r : OpenRoutine} :
    openRoutine functions current l = .ok r ↔
      ∃ token rest, l.operands = token :: rest ∧ functionOf token.text ≠ "" ∧ current = none ∧
        functions.lookup (functionOf token.text) = none ∧
        r = ⟨functionOf token.text, l.offset, l.number, token.column⟩ := by
  unfold openRoutine
  cases hoperands : l.operands with
  | nil => simp
  | cons token rest =>
    dsimp only
    split_ifs with hname hcurrent hlookup
    · simp [hname]
    · rcases Option.isSome_iff_exists.mp hcurrent with ⟨r', rfl⟩
      simp
    · rcases Option.isSome_iff_exists.mp hlookup with ⟨extent, hextent⟩
      constructor
      · intro herror
        cases herror
      · rintro ⟨token', rest', hcons, _, _, hnone, _⟩
        cases hcons
        rw [hextent] at hnone
        cases hnone
    · constructor
      · intro hr
        cases hr
        exact ⟨token, rest, rfl, hname, Option.not_isSome_iff_eq_none.mp hcurrent,
          Option.not_isSome_iff_eq_none.mp hlookup, rfl⟩
      · rintro ⟨token', rest', hcons, _, _, _, rfl⟩
        cases hcons
        rfl

/-- After a header, the functions are those found with its function open. -/
theorem collectRoutines_header (hop : l.opcode.isHeader = true) :
    collectRoutines functions current (l :: ls) = .ok fs ↔
      ∃ r, openRoutine functions current l = .ok r ∧
        collectRoutines functions (some r) ls = .ok fs := by
  simp only [collectRoutines, hop, if_true, bind_eq_ok]

/-- An end mark closes the function that is open, which extends from its header to past the mark. -/
theorem collectRoutines_endFunc (hop : l.opcode = .endFunc) :
    collectRoutines functions current (l :: ls) = .ok fs ↔
      ∃ r, current = some r ∧
        collectRoutines ((r.name, ⟨r.entry, l.next⟩) :: functions) none ls = .ok fs := by
  cases current with
  | none => simp [collectRoutines, hop, Opcode.isHeader]
  | some r => simp [collectRoutines, hop, Opcode.isHeader]

/-- Other lines have no part in functions. -/
theorem collectRoutines_other (hop : l.opcode.isBracket = false) :
    collectRoutines functions current (l :: ls) = collectRoutines functions current ls := by
  simp only [Opcode.isBracket, Bool.or_eq_false_iff, beq_eq_false_iff_ne] at hop
  simp [collectRoutines, hop]

/-- Headers and end marks alternate. -/
theorem alternates_of_collectRoutines (hfs : collectRoutines functions current ls = .ok fs) :
    alternatesFrom current.isSome (ls.map SourceLine.opcode) = true := by
  induction ls generalizing functions current with
  | nil =>
    cases current with
    | none => rfl
    | some r => cases hfs
  | cons l ls ih =>
    rw [List.map_cons]
    rcases isBracket_cases l.opcode with hheader | hend | hother
    · rcases (collectRoutines_header hheader).mp hfs with ⟨r, hr, hrest⟩
      rcases openRoutine_eq_ok.mp hr with ⟨_, _, _, _, rfl, _⟩
      rw [alternatesFrom_header hheader]
      exact ih hrest
    · rcases (collectRoutines_endFunc hend).mp hfs with ⟨r, rfl, hrest⟩
      rw [hend, alternatesFrom_endFunc]
      exact ih hrest
    · rw [collectRoutines_other hother] at hfs
      rw [alternatesFrom_other hother]
      exact ih hfs

/-- The offset a function is entered at is that of a header with its name. -/
theorem entry_of_collectRoutines (hfs : collectRoutines functions current ls = .ok fs)
    {x : String × Extent} (hx : x ∈ fs) :
    x ∈ functions ∨ (∃ r, current = some r ∧ x.1 = r.name ∧ x.2.entry = r.entry) ∨
      ∃ l ∈ ls, l.opcode.isHeader = true ∧ l.offset = x.2.entry ∧
        ∃ token rest, l.operands = token :: rest ∧ functionOf token.text = x.1 := by
  induction ls generalizing functions current with
  | nil =>
    cases current with
    | none =>
      cases hfs
      exact Or.inl hx
    | some r => cases hfs
  | cons l ls ih =>
    rcases isBracket_cases l.opcode with hheader | hend | hother
    · rcases (collectRoutines_header hheader).mp hfs with ⟨r, hr, hrest⟩
      rcases openRoutine_eq_ok.mp hr with ⟨token, rest, hoperands, _, _, _, rfl⟩
      rcases ih hrest with hold | ⟨r', hr', hname, hentry⟩ | ⟨l', hl', hlater⟩
      · exact Or.inl hold
      · cases hr'
        exact Or.inr (Or.inr ⟨l, List.mem_cons_self, hheader, hentry.symm, token, rest, hoperands,
          hname.symm⟩)
      · exact Or.inr (Or.inr ⟨l', List.mem_cons_of_mem _ hl', hlater⟩)
    · rcases (collectRoutines_endFunc hend).mp hfs with ⟨r, rfl, hrest⟩
      rcases ih hrest with hold | ⟨r', hr', _⟩ | ⟨l', hl', hlater⟩
      · rcases List.mem_cons.mp hold with rfl | hold
        · exact Or.inr (Or.inl ⟨r, rfl, rfl, rfl⟩)
        · exact Or.inl hold
      · cases hr'
      · exact Or.inr (Or.inr ⟨l', List.mem_cons_of_mem _ hl', hlater⟩)
    · rw [collectRoutines_other hother] at hfs
      rcases ih hfs with hold | hopen | ⟨l', hl', hlater⟩
      · exact Or.inl hold
      · exact Or.inr (Or.inl hopen)
      · exact Or.inr (Or.inr ⟨l', List.mem_cons_of_mem _ hl', hlater⟩)

/-- An end mark is the first one of the lines that start with it. -/
theorem endAfter_cons_endFunc (hop : l.opcode = .endFunc) :
    endAfter ((l :: ls).map SourceLine.site) = some l.next := by
  simp [endAfter, SourceLine.site, hop, SourceLine.next]

/-- Lines before an end mark do not change where it ends. -/
theorem endAfter_cons_other (hop : l.opcode ≠ .endFunc) :
    endAfter ((l :: ls).map SourceLine.site) = endAfter (ls.map SourceLine.site) := by
  simp [endAfter, SourceLine.site, hop]

/-- What the functions found stand for: those known before stay, the open one ends at the
next end mark, and so does each that a header declares. -/
theorem lookup_of_collectRoutines (hfs : collectRoutines functions current ls = .ok fs)
    (hcurrent : ∀ r, current = some r → functions.lookup r.name = none) :
    (∀ name extent, functions.lookup name = some extent → fs.lookup name = some extent) ∧
    (∀ r, current = some r → ∃ finish, endAfter (ls.map SourceLine.site) = some finish ∧
      fs.lookup r.name = some ⟨r.entry, finish⟩) ∧
    ∀ earlier l later, ls = earlier ++ l :: later → l.opcode.isHeader = true →
      ∃ token rest finish, l.operands = token :: rest ∧
        endAfter (later.map SourceLine.site) = some finish ∧
        fs.lookup (functionOf token.text) = some ⟨l.offset, finish⟩ := by
  induction ls generalizing functions current with
  | nil =>
    cases current with
    | none =>
      cases hfs
      exact ⟨fun _ _ h => h, by simp, by simp⟩
    | some r => cases hfs
  | cons l ls ih =>
    rcases isBracket_cases l.opcode with hheader | hend | hother
    · have hne : l.opcode ≠ .endFunc := by
        intro heq
        rw [heq] at hheader
        cases hheader
      rcases (collectRoutines_header hheader).mp hfs with ⟨r, hr, hrest⟩
      rcases openRoutine_eq_ok.mp hr with ⟨token, rest, hoperands, _, rfl, hnew, rfl⟩
      rcases ih hrest (by rintro _ ⟨⟩; exact hnew) with ⟨hold, hopen, hlater⟩
      refine ⟨hold, by simp, ?_⟩
      intro earlier l' later hsplit hl'
      rcases List.cons_eq_append_iff.mp hsplit with ⟨rfl, hcons⟩ | ⟨earlier', rfl, hsplit'⟩
      · cases hcons
        rcases hopen _ rfl with ⟨finish, hfinish, hlookup⟩
        exact ⟨token, rest, finish, hoperands, hfinish, hlookup⟩
      · exact hlater earlier' l' later hsplit' hl'
    · rcases (collectRoutines_endFunc hend).mp hfs with ⟨r, rfl, hrest⟩
      have hnew := hcurrent r rfl
      rcases ih hrest (by simp) with ⟨hold, _, hlater⟩
      refine ⟨?_, ?_, ?_⟩
      · intro name extent hname
        apply hold
        have hne : (name == r.name) = false := by
          rw [beq_eq_false_iff_ne]
          rintro rfl
          rw [hname] at hnew
          cases hnew
        rw [List.lookup_cons, hne, hname]
      · rintro _ ⟨⟩
        exact ⟨l.next, endAfter_cons_endFunc hend, hold _ _ (by simp)⟩
      · intro earlier l' later hsplit hl'
        rcases List.cons_eq_append_iff.mp hsplit with ⟨rfl, hcons⟩ | ⟨earlier', rfl, hsplit'⟩
        · cases hcons
          rw [hend] at hl'
          cases hl'
        · exact hlater earlier' l' later hsplit' hl'
    · have hne : l.opcode ≠ .endFunc := by
        intro heq
        rw [heq] at hother
        cases hother
      rw [collectRoutines_other hother] at hfs
      rcases ih hfs hcurrent with ⟨hold, hopen, hlater⟩
      refine ⟨hold, ?_, ?_⟩
      · intro r hr
        rw [endAfter_cons_other hne]
        exact hopen r hr
      · intro earlier l' later hsplit hl'
        rcases List.cons_eq_append_iff.mp hsplit with ⟨rfl, hcons⟩ | ⟨earlier', rfl, hsplit'⟩
        · cases hcons
          simp [Opcode.isBracket, hl'] at hother
        · exact hlater earlier' l' later hsplit' hl'

end Routines

end Assembly

end StackMachine
