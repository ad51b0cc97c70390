import StackMachine.Proofs.Assembly.Emit
import StackMachine.Proofs.Program.Verified

/-!
# Assembled programs are verified

What an assembly takes from the layout, the verification of the program finds in the
stream: the lines of the source text are where the decoded instructions are, so labels are
at instructions, functions at headers, and ends of functions past an end mark.  All numbers
an assembly accepts are doubles that verification accepts, as long as the program is short
enough for its offsets to be exact.

Main results:

- Theorem `placed_of_assemble`: an assembled program decodes to the instructions of its
  lines, where the layout has put them.
- Theorems `target_of_names`, `function_of_names`, `bodyEnd_of_names`: what the names of a
  source text stand for.
- Theorem `verify_of_assemble`: an assembled program is verified.
-/

namespace StackMachine.Assembly

open Double (maxIndex)
open Fallible

/-! ## Lines and decoded instructions -/

/-- The lines of a layout are the instructions of a program, in their places. -/
def Realizes (l : Layout) (functions : List (String × Extent)) (ds : List Placed) : Prop :=
  List.Forall₂ (fun line d => d.site = line.site ∧
    (l.scope functions).emit line = .ok d.toInstruction) l.lines ds

/-- An assembled program decodes to the instructions of its lines, where the layout has put
them. -/
theorem placed_of_assemble {source : String} {p : Program} (hp : assemble source = .ok p) :
    ∃ l fs ds, layout source = .ok l ∧ l.routines = .ok fs ∧ p.decode = .ok ds ∧
      p.size = l.length ∧ Realizes l fs ds := by
  rcases assemble_eq_ok.mp hp with ⟨l, fs, is, hl, hfs, his, rfl⟩
  have hlaid : LaidOut codeStart l.lines l.length := laidOut_of_collect hl
  have hops : List.Forall₂ (fun line i => i.opcode = line.opcode ∧ i.HasArity) l.lines is :=
    his.imp fun _ _ hi => Scope.opcode_of_emit hi
  have harity : ∀ i ∈ is, i.HasArity := by
    intro i hi
    rcases List.append_of_mem hi with ⟨earlier, later, rfl⟩
    rcases split_of_forall₂ hops with ⟨_, line, _, _, hline, _⟩
    exact hline.2
  refine ⟨l, fs, Program.placeFrom codeStart is, hl, hfs, Program.decode_ofCode harity, ?_, ?_⟩
  · rw [Program.size_ofCode, hlaid.finish_eq hops]
  · exact hlaid.placeFrom his fun _ _ hi => (Scope.opcode_of_emit hi).1

section Names

variable {source : String} {l : Layout} {fs : List (String × Extent)} (hl : layout source = .ok l)
include hl

/-- A label that is jumped to stands for the offset of a line. -/
theorem target_of_names {text : String} {n : Nat} (hn : (l.scope fs).Names .target text n) :
    n < l.length ∧ ∃ line ∈ l.lines, line.offset = n := by
  rcases Scope.resolveLabel_eq_ok.mp hn with ⟨name, _, hlookup, hlt⟩
  rcases List.lookup_eq_some_iff.mp hlookup with ⟨before, after, hlabels, _⟩
  have hmem : (name, n) ∈ l.labels := by
    rw [show l.labels = before ++ (name, n) :: after from hlabels]
    simp
  rcases label_of_collect hl hmem with hnone | hend | hline
  · cases hnone
  · exact absurd hend hlt.ne
  · exact ⟨hlt, hline⟩

variable (hfs : l.routines = .ok fs)
include hfs

omit hl in
/-- A function that is called stands for the offset of the header with its name. -/
theorem function_of_names {text : String} {n : Nat}
    (hn : (l.scope fs).Names .function text n) :
    ∃ line ∈ l.lines, line.opcode.isHeader = true ∧ line.offset = n ∧
      ∃ token rest, line.operands = token :: rest ∧ functionOf token.text = functionOf text := by
  rcases hn with ⟨extent, hextent, rfl⟩
  rcases List.lookup_eq_some_iff.mp (Scope.resolveFunction_eq_ok.mp hextent) with
    ⟨before, after, hfunctions, _⟩
  have hmem : (functionOf text, extent) ∈ fs := by
    rw [show fs = before ++ (functionOf text, extent) :: after from hfunctions]
    simp
  rcases entry_of_collectRoutines hfs hmem with hnone | ⟨_, hnone, _⟩ | hline
  · cases hnone
  · cases hnone
  · exact hline

omit hl in
/-- A header declares the function that ends past the next end mark. -/
theorem bodyEnd_of_names {earlier later : List SourceLine} {line : SourceLine} {n : Nat}
    (hlines : l.lines = earlier ++ line :: later) (hheader : line.opcode.isHeader = true)
    (hn : (l.scope fs).Names .bodyEnd (line.text 0) n) :
    endAfter (later.map SourceLine.site) = some n := by
  rcases (lookup_of_collectRoutines hfs (by simp)).2.2 earlier line later hlines hheader with
    ⟨token, rest, finish, hoperands, hend, hlookup⟩
  have htext : line.text 0 = token.text := by simp [SourceLine.text, hoperands]
  rcases hn with ⟨extent, hextent, rfl⟩
  have hextent' : fs.lookup (functionOf (line.text 0)) = some extent :=
    Scope.resolveFunction_eq_ok.mp hextent
  rw [htext, hlookup] at hextent'
  cases hextent'
  exact hend

omit hfs in
/-- The end of a function is past its header, at a line or at the end. -/
theorem bounds_of_endAfter {earlier later : List SourceLine} {line : SourceLine} {n : Nat}
    (hlines : l.lines = earlier ++ line :: later)
    (hend : endAfter (later.map SourceLine.site) = some n) :
    line.offset < n ∧ n ≤ l.length ∧ (n = l.length ∨ ∃ line' ∈ l.lines, line'.offset = n) := by
  have hlaid : LaidOut codeStart l.lines l.length := laidOut_of_collect hl
  rcases Option.map_eq_some_iff.mp hend with ⟨_, hfind, rfl⟩
  rcases List.mem_map.mp (List.mem_of_find?_eq_some hfind) with ⟨mark, hmark, rfl⟩
  have hmem : mark ∈ l.lines := by simp [hlines, hmark]
  have hlater := ((hlines ▸ hlaid).later.bounds.2 mark hmark).1
  have hpos := mark.opcode.size_pos
  have hle : line.offset ≤ line.next := Nat.le_add_right _ _
  refine ⟨?_, (hlaid.bounds.2 mark hmem).2, hlaid.next mark hmem⟩
  exact Nat.lt_of_le_of_lt (hle.trans hlater) (Nat.lt_add_of_pos_right hpos)

end Names

/-! ## Verification -/

/-- Where a line is, an instruction with its opcode is. -/
theorem exists_placed {ls : List SourceLine} {ds : List Placed}
    (hsites : ds.map Placed.site = ls.map SourceLine.site) {line : SourceLine} (hline : line ∈ ls) :
    ∃ d ∈ ds, d.opcode = line.opcode ∧ d.offset = line.offset := by
  have hmem : line.site ∈ ds.map Placed.site := by
    rw [hsites]
    exact List.mem_map_of_mem hline
  rcases List.mem_map.mp hmem with ⟨d, hd, hsite⟩
  exact ⟨d, hd, congrArg Prod.fst hsite, congrArg Prod.snd hsite⟩

/-- A number that is read can be held by a double exactly. -/
theorem le_of_parseCount {text : String} {n : Nat} (hparse : parseCount text = .ok n) :
    n ≤ maxIndex := by
  unfold parseCount at hparse
  split at hparse
  · rename_i hbind
    cases hparse
    rcases Option.bind_eq_some_iff.mp hbind with ⟨v, _, hv⟩
    exact Double.index?_le hv
  · cases hparse

/-- The operands of an assembled instruction are admitted. -/
theorem admits_of_realizes {source : String} {l : Layout} {fs : List (String × Extent)}
    {p : Program} {ds : List Placed} (hl : layout source = .ok l) (hfs : l.routines = .ok fs)
    (hds : p.decode = .ok ds) (hsize : p.size = l.length) (hmax : p.size ≤ maxIndex)
    (hreal : Realizes l fs ds) {d : Placed} (hd : d ∈ ds) :
    ∀ x ∈ d.opcode.operands.zipIdx, CodeMap.Admits ⟨p.size, ds⟩ d x.1 x.2 := by
  have hsites := map_site_eq hreal
  rcases List.append_of_mem hd with ⟨earlier', later', hsplit⟩
  have hsplit' := hreal
  rw [Realizes, hsplit] at hsplit'
  rcases split_of_forall₂ hsplit' with ⟨earlier, line, later, hlines, ⟨hsite, hemit⟩, _⟩
  have hop : d.opcode = line.opcode := congrArg Prod.fst hsite
  have hoffset : d.offset = line.offset := congrArg Prod.snd hsite
  have hstart := Program.codeStart_le_of_mem hds hd
  rintro ⟨kind, k⟩ hx
  rw [hop] at hx
  cases hstack : line.opcode.isStack with
  | true =>
    rcases (Scope.emit_eq_ok_of_isStack hstack).mp hemit with ⟨_, _, operand, _, hvalues⟩
    rw [Opcode.operands_of_isStack hstack] at hx
    have hx' : kind = .mode ∧ k = 0 ∨ kind = .location ∧ k = 1 := by simpa [List.zipIdx] using hx
    rcases hx' with ⟨rfl, rfl⟩ | ⟨rfl, rfl⟩
    · refine ⟨operand, ?_⟩
      simp only [Instruction.operand, hvalues]
      exact Operand.decode_encode _ _ operand
    · trivial
  | false =>
    rcases ((Scope.emit_eq_ok hstack).mp hemit).2.2.2 _ hx with ⟨n, hn, hvalue⟩
    have hindex (hle : n ≤ maxIndex) : (d.operand k).index? = some n := by
      rw [hvalue]
      exact Double.index?_ofNat hle
    cases kind with
    | mode => exact absurd hn id
    | location => trivial
    | target =>
      rcases target_of_names hl hn with ⟨hlt, line', hline', rfl⟩
      rcases exists_placed hsites hline' with ⟨d', hd', _, hoffset'⟩
      refine ⟨line'.offset, hindex (by omega), ?_, hsize ▸ hlt, ?_⟩
      · rw [← hoffset']
        exact Program.codeStart_le_of_mem hds hd'
      · exact CodeMap.isBoundary_eq_true.mpr ⟨d', hd', hoffset'⟩
    | function =>
      rcases function_of_names hfs hn with ⟨line', hline', hheader, rfl, _⟩
      rcases exists_placed hsites hline' with ⟨d', hd', hop', hoffset'⟩
      have hlt : line'.offset < p.size := by
        have hnext := Program.next_le_size hds hd'
        have hpos := d'.opcode.size_pos
        rw [Placed.next] at hnext
        omega
      refine ⟨line'.offset, hindex (by omega), ?_, hlt, ?_⟩
      · rw [← hoffset']
        exact Program.codeStart_le_of_mem hds hd'
      · exact CodeMap.isHeader_eq_true.mpr ⟨d', hd', hoffset', hop'.symm ▸ hheader⟩
    | bodyEnd =>
      rcases isHeader_of_bodyEnd hx with ⟨hheader, rfl⟩
      have hend := bodyEnd_of_names hfs hlines hheader hn
      rcases bounds_of_endAfter hl hlines hend with ⟨hlt, hle, hlanding⟩
      rw [← hsize] at hle hlanding
      refine ⟨n, hindex (hle.trans hmax), by omega, hle, by omega, ?_⟩
      rcases hlanding with heq | ⟨line', hline', rfl⟩
      · exact Or.inl heq
      · rcases exists_placed hsites hline' with ⟨d', hd', _, hoffset'⟩
        exact Or.inr (CodeMap.isBoundary_eq_true.mpr ⟨d', hd', hoffset'⟩)
    | count => exact ⟨n, hindex (le_of_parseCount hn)⟩
    | slot => exact ⟨n, hindex (le_of_parseCount hn)⟩
    | frameSize => exact ⟨n, hindex (le_of_parseCount hn.1), hn.2⟩
    | length => exact ⟨n, hindex (le_of_parseCount hn.1), hn.2⟩

/-- An assembled program is verified. -/
theorem verified_of_realizes {source : String} {l : Layout} {fs : List (String × Extent)}
    {p : Program} {ds : List Placed} (hl : layout source = .ok l) (hfs : l.routines = .ok fs)
    (hds : p.decode = .ok ds) (hsize : p.size = l.length) (hmax : p.size ≤ maxIndex)
    (hreal : Realizes l fs ds) : p.verify = .ok () :=
  Program.verify_eq_ok.mpr
    ⟨ds, hds, fun _ hd => admits_of_realizes hl hfs hds hsize hmax hreal hd⟩

/-- A program that assembles from a source text is verified, unless it is too long for its
offsets to be exact. -/
theorem verify_of_assemble {source : String} {p : Program} (hp : assemble source = .ok p)
    (hmax : p.size ≤ 2 ^ 53) : p.verify = .ok () := by
  rcases placed_of_assemble hp with ⟨l, fs, ds, hl, hfs, hds, hsize, hreal⟩
  exact verified_of_realizes hl hfs hds hsize hmax hreal

/-- A function, and a jump from before it to after it. -/
def sourceExample : String := "JMP :go\nFD :f, 1, 2\nENDFUNC\n:go\nPUSH [rax+3]\nCALL f\n"

/-- The source text assembles, and the program verifies. -/
theorem verify_sourceExample :
    ∃ p, assemble sourceExample = .ok p ∧ p.size ≤ 2 ^ 53 ∧ p.verify = .ok () := by
  have hsize : Program.size <$> assemble sourceExample = .ok 67 := by decide +kernel
  rcases map_eq_ok.mp hsize with ⟨p, hp, hsize⟩
  have hmax : p.size ≤ 2 ^ 53 := by omega
  exact ⟨p, hp, hmax, verify_of_assemble hp hmax⟩

end StackMachine.Assembly
