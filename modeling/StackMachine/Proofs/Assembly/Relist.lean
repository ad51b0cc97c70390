import StackMachine.Proofs.Assembly.Reread

/-!
# Listings are assembled

The listing of a verified program is a text of lines of words: the labels of the offsets
that are jumped to, and the source lines of the instructions.  Its layout puts every line
where the instruction was, its labels stand for their offsets, and its functions are found
exactly when headers and end marks alternate.  The program it assembles to consists of the
instructions that are read back.

Main results:

- Theorem `lines_listing`: the lines of a listing.
- Theorem `collect_listing`: the layout of a listing.
- Theorem `collectRoutines_of_alternates`: the functions of lines that are named after the
  offsets of their headers.
- Theorem `layout_listing`: the lines and labels of the listing of a verified program.
- Theorem `assemble_listing`: what the listing of a verified program assembles to.
-/

namespace StackMachine.Assembly

open Fallible
open Program (placeFrom listInstruction)

/-! ## Lines -/

/-- The lines of a listing for one instruction. -/
def listingLines (targets : List Nat) (d : Placed) : List (List Char) :=
  (if targets.contains d.offset then [(":" ++ labelName d.offset).toList] else []) ++
    [(" ".intercalate (d.opcode.mnemonic :: d.words)).toList]

/-- An instruction that is admitted is listed, as its lines one below the other. -/
theorem listInstruction_eq {m : CodeMap} {d : Placed}
    (hadmits : ∀ x ∈ d.opcode.operands.zipIdx, m.Admits d x.1 x.2) (targets : List Nat) :
    ∃ text, listInstruction targets d = .ok text ∧
      text.toList = (listingLines targets d).flatMap (· ++ ['\n']) := by
  simp only [listInstruction, bind_eq_ok, pure_eq_ok]
  refine ⟨_, ⟨_, Placed.render_eq hadmits, rfl⟩, ?_⟩
  by_cases htarget : d.offset ∈ targets
  · simp [listingLines, htarget, Operand.toString_string, String.toList_append]
  · simp [listingLines, htarget, String.toList_append]

/-- The lines of a listing. -/
theorem lines_listing {p : Program} {ds : List Placed} (hds : p.decode = .ok ds)
    (hadmits : ∀ d ∈ ds, ∀ x ∈ d.opcode.operands.zipIdx, CodeMap.Admits ⟨p.size, ds⟩ d x.1 x.2) :
    ∃ text, p.listing = .ok text ∧
      Text.lines text.toList = ds.flatMap (listingLines (ds.flatMap Placed.targets)) := by
  generalize htargets : ds.flatMap Placed.targets = targets
  have htexts : ∃ texts, ds.mapM (listInstruction targets) = .ok texts ∧
      texts.flatMap String.toList = (ds.flatMap (listingLines targets)).flatMap (· ++ ['\n']) := by
    have hone : ∀ d ∈ ds, ∃ text, listInstruction targets d = .ok text ∧
        text.toList = (listingLines targets d).flatMap (· ++ ['\n']) :=
      fun d hd => listInstruction_eq (hadmits d hd) targets
    clear hds hadmits htargets
    induction ds with
    | nil => exact ⟨[], rfl, rfl⟩
    | cons d ds ih =>
      rw [List.forall_mem_cons] at hone
      rcases hone with ⟨⟨text, htext, hchars⟩, hrest⟩
      rcases ih hrest with ⟨texts, htexts, hchars'⟩
      refine ⟨text :: texts, ?_, ?_⟩
      · rw [List.mapM_cons, bind_eq_ok]
        exact ⟨text, htext, bind_eq_ok.mpr ⟨texts, htexts, rfl⟩⟩
      · rw [List.flatMap_cons, hchars, hchars', List.flatMap_cons, List.flatMap_append]
  rcases htexts with ⟨texts, htexts, hchars⟩
  refine ⟨String.join texts, ?_, ?_⟩
  · simp only [Program.listing, bind_eq_ok, pure_eq_ok]
    exact ⟨ds, hds, texts, by rw [htargets]; exact htexts, rfl⟩
  · rw [String.toList_join, hchars]
    apply Text.lines_flatMap
    intro line hline
    rcases List.mem_flatMap.mp hline with ⟨d, hd, hline⟩
    have hwords : ∃ ws : List (List Char), (∀ w ∈ ws, IsWord w) ∧
        line = List.intercalate [' '] ws := by
      rcases List.mem_append.mp hline with hlabel | hinstruction
      · split at hlabel
        · refine ⟨[line], ?_, by simp⟩
          rw [List.mem_singleton.mp hlabel]
          simpa using isWord_colon_labelName d.offset
        · cases hlabel
      · refine ⟨(d.opcode.mnemonic :: d.words).map String.toList, ?_, ?_⟩
        · simpa using ⟨(isWord_mnemonic d.opcode).1, isWord_words (hadmits d hd)⟩
        · rw [List.mem_singleton.mp hinstruction, String.toList_intercalate]
          rfl
    rcases hwords with ⟨ws, hws, rfl⟩
    exact ⟨not_mem_words hws (by decide) rfl, not_mem_words hws (by decide) rfl⟩

/-! ## Layout -/

/-- A line stands for an instruction: it has its place and its words. -/
def Shows (line : SourceLine) (d : Placed) : Prop :=
  d.site = line.site ∧ line.operands.map Token.text = d.words

/-- The label of one offset is not found under that of another. -/
theorem lookup_labelName_cons {labels : List (String × Nat)} {s t : Nat} (hne : t ≠ s) :
    ((labelName s, s) :: labels).lookup (labelName t) = labels.lookup (labelName t) := by
  have hname : (labelName t == labelName s) = false := by
    rw [beq_eq_false_iff_ne]
    exact fun hname => hne (labelName_inj hname)
  rw [List.lookup_cons, hname]

/-- The layout of a listing: each line is where its instruction was, and each label stands
for its offset. -/
theorem collect_listing (targets : List Nat) {is : List Instruction} {offset : Nat}
    {labels : List (String × Nat)}
    (hwords : ∀ d ∈ placeFrom offset is, ∀ w ∈ d.words, IsWord w.toList)
    (hnew : ∀ d ∈ placeFrom offset is, labels.lookup (labelName d.offset) = none) (k : Nat) :
    ∃ l, collect labels offset
        (((placeFrom offset is).flatMap (listingLines targets)).zipIdx k) = .ok l ∧
      List.Forall₂ Shows l.lines (placeFrom offset is) ∧
      (∀ name t, labels.lookup name = some t → l.labels.lookup name = some t) ∧
      ∀ d ∈ placeFrom offset is, d.offset ∈ targets →
        l.labels.lookup (labelName d.offset) = some d.offset := by
  induction is generalizing offset labels k with
  | nil => exact ⟨⟨labels, [], offset⟩, rfl, List.Forall₂.nil, fun _ _ h => h, by simp [placeFrom]⟩
  | cons i is ih =>
    rw [placeFrom, List.forall_mem_cons] at hwords hnew
    have hlater : ∀ d ∈ placeFrom (offset + i.opcode.size) is, d.offset ≠ offset := by
      intro d hd
      have hle := Program.le_of_mem_placeFrom d hd
      have hpos := i.opcode.size_pos
      omega
    -- The source line of the first instruction, whichever labels are known before it.
    have hline (labels' : List (String × Nat)) (k' : Nat)
        (hnew' : ∀ d ∈ placeFrom (offset + i.opcode.size) is,
          labels'.lookup (labelName d.offset) = none) :
        ∃ l, collect labels' offset
            (((" ".intercalate (i.opcode.mnemonic :: (⟨i, offset⟩ : Placed).words)).toList, k') ::
              ((placeFrom (offset + i.opcode.size) is).flatMap (listingLines targets)).zipIdx
                (k' + 1)) = .ok l ∧
          List.Forall₂ Shows l.lines (⟨i, offset⟩ :: placeFrom (offset + i.opcode.size) is) ∧
          (∀ name t, labels'.lookup name = some t → l.labels.lookup name = some t) ∧
          ∀ d ∈ placeFrom (offset + i.opcode.size) is, d.offset ∈ targets →
            l.labels.lookup (labelName d.offset) = some d.offset := by
      rcases readLine_instruction k' i.opcode hwords.1 with ⟨column, tokens, hread, htokens⟩
      rcases ih hwords.2 hnew' (k' + 1) with ⟨tail, htail, hshows, hkept, hset⟩
      refine ⟨_, collect_cons_eq_ok.mpr ⟨_, hread, tail, htail, rfl⟩, ?_, hkept, hset⟩
      exact List.Forall₂.cons ⟨rfl, htokens⟩ hshows
    rw [placeFrom, List.flatMap_cons, listingLines]
    by_cases htarget : offset ∈ targets
    · rcases readLine_label k labelName_ne_empty (isWord_colon_labelName offset) with
        ⟨column, hread⟩
      rcases hline ((labelName offset, offset) :: labels) (k + 1)
        (fun d hd => by rw [lookup_labelName_cons (hlater d hd)]; exact hnew.2 d hd) with
        ⟨l, hl, hshows, hkept, hset⟩
      have hself := hkept (labelName offset) offset (by simp)
      refine ⟨l, ?_, hshows, ?_, ?_⟩
      · simp only [List.contains_eq_mem, htarget, decide_true, if_true, List.cons_append,
          List.nil_append, List.zipIdx_cons]
        exact collect_cons_eq_ok.mpr ⟨_, hread, hnew.1, hl⟩
      · intro name t hname
        apply hkept
        have hne : (name == labelName offset) = false := by
          rw [beq_eq_false_iff_ne]
          rintro rfl
          rw [hnew.1] at hname
          cases hname
        rw [List.lookup_cons, hne, hname]
      · intro d hd htarget'
        rcases List.mem_cons.mp hd with rfl | hd
        · exact hself
        · exact hset d hd htarget'
    · rcases hline labels k hnew.2 with ⟨l, hl, hshows, hkept, hset⟩
      refine ⟨l, ?_, hshows, hkept, ?_⟩
      · simp only [List.contains_eq_mem, htarget, decide_false, Bool.false_eq_true, if_false,
          List.nil_append, List.cons_append, List.zipIdx_cons]
        exact hl
      · intro d hd htarget'
        rcases List.mem_cons.mp hd with rfl | hd
        · exact absurd htarget' htarget
        · exact hset d hd htarget'

/-! ## Functions -/

/-- The functions of lines that alternate are found when they are named after the offsets of
their headers. -/
theorem collectRoutines_of_alternates {ls : List SourceLine}
    {functions : List (String × Extent)} {current : Option OpenRoutine}
    (hnames : ∀ l ∈ ls, l.opcode.isHeader = true →
      ∃ token rest, l.operands = token :: rest ∧ token.text = functionName l.offset)
    (hordered : ls.Pairwise fun l l' => l.offset < l'.offset)
    (hnew : ∀ l ∈ ls, functions.lookup (functionName l.offset) = none)
    (hcurrent : ∀ r, current = some r → ∀ l ∈ ls, functionName l.offset ≠ r.name)
    (halternates : alternatesFrom current.isSome (ls.map SourceLine.opcode) = true) :
    ∃ fs, collectRoutines functions current ls = .ok fs := by
  induction ls generalizing functions current with
  | nil =>
    cases current with
    | none => exact ⟨functions, rfl⟩
    | some r => cases halternates
  | cons l ls ih =>
    rw [List.forall_mem_cons] at hnames hnew
    rw [List.pairwise_cons] at hordered
    rw [List.map_cons] at halternates
    rcases isBracket_cases l.opcode with hheader | hend | hother
    · rw [alternatesFrom_header hheader, Bool.and_eq_true, Bool.not_eq_true',
        Option.isSome_eq_false_iff, Option.isNone_iff_eq_none] at halternates
      rcases halternates with ⟨rfl, halternates⟩
      rcases hnames.1 hheader with ⟨token, rest, hoperands, htext⟩
      have hname : functionOf token.text = functionName l.offset := by
        rw [htext, functionOf_functionName]
      let r : OpenRoutine := ⟨functionName l.offset, l.offset, l.number, token.column⟩
      have hopen : openRoutine functions none l = .ok r := by
        refine openRoutine_eq_ok.mpr ⟨token, rest, hoperands, ?_, rfl, ?_, ?_⟩
        · rw [hname]
          exact functionName_ne_empty
        · rw [hname]
          exact hnew.1
        · rw [hname]
      have hcurrent' : ∀ r', some r = some r' → ∀ l' ∈ ls, functionName l'.offset ≠ r'.name := by
        rintro _ ⟨⟩ l' hl' hname'
        exact (hordered.1 l' hl').ne' (functionName_inj hname')
      rcases ih hnames.2 hordered.2 hnew.2 hcurrent' halternates with ⟨fs, hfs⟩
      exact ⟨fs, (collectRoutines_header hheader).mpr ⟨r, hopen, hfs⟩⟩
    · rw [hend, alternatesFrom_endFunc, Bool.and_eq_true, Option.isSome_iff_exists] at halternates
      rcases halternates with ⟨⟨r, rfl⟩, halternates⟩
      have hnew' : ∀ l' ∈ ls, ((r.name, Extent.mk r.entry l.next) :: functions).lookup
          (functionName l'.offset) = none := by
        intro l' hl'
        have hne : (functionName l'.offset == r.name) = false := by
          rw [beq_eq_false_iff_ne]
          exact hcurrent r rfl l' (List.mem_cons_of_mem _ hl')
        rw [List.lookup_cons, hne]
        exact hnew.2 l' hl'
      have hclosed : ∀ r', (none : Option OpenRoutine) = some r' →
          ∀ l' ∈ ls, functionName l'.offset ≠ r'.name := by simp
      rcases ih hnames.2 hordered.2 hnew' hclosed halternates with ⟨fs, hfs⟩
      exact ⟨fs, (collectRoutines_endFunc hend).mpr ⟨r, rfl, hfs⟩⟩
    · rw [alternatesFrom_other hother] at halternates
      rw [collectRoutines_other hother]
      exact ih hnames.2 hordered.2 hnew.2
        (fun r hr l' hl' => hcurrent r hr l' (List.mem_cons_of_mem _ hl')) halternates

/-- The first word of a header is the name of its function, which is made from its own offset. -/
theorem words_of_isHeader {d : Placed} (hheader : d.opcode.isHeader = true) :
    ∃ rest, d.words = functionName d.offset :: rest := by
  have hkinds : ∃ kinds, d.opcode.operands = .bodyEnd :: kinds := by
    cases hop : d.opcode with
    | func => exact ⟨_, rfl⟩
    | framed => exact ⟨_, rfl⟩
    | _ => rw [hop] at hheader; cases hheader
  rcases hkinds with ⟨kinds, hkinds⟩
  have hfirst : d.wordsOf .bodyEnd 0 = [functionName d.offset] := Placed.wordsOf_eq rfl
  rw [Placed.words, hkinds, List.zipIdx_cons, List.flatMap_cons, hfirst, List.singleton_append]
  exact ⟨_, rfl⟩

/-- The line of a header starts with the name of its function. -/
theorem operands_of_isHeader {line : SourceLine} {d : Placed} (hshows : Shows line d)
    (hheader : line.opcode.isHeader = true) :
    ∃ token rest, line.operands = token :: rest ∧ token.text = functionName line.offset := by
  have hop : d.opcode = line.opcode := congrArg Prod.fst hshows.1
  have hoffset : d.offset = line.offset := congrArg Prod.snd hshows.1
  rcases words_of_isHeader (hop.symm ▸ hheader) with ⟨rest, hrest⟩
  have hwords := hshows.2
  rw [hrest, hoffset] at hwords
  rcases List.map_eq_cons_iff.mp hwords with ⟨token, tokens, hoperands, htoken, _⟩
  exact ⟨token, tokens, hoperands, htoken⟩

/-! ## Instructions -/

/-- The instructions that are read back for those of a program. -/
def rereadAll : List Placed → List Instruction
  | [] => []
  | d :: ds => d.reread ((endAfter (ds.map Placed.site)).getD 0) :: rereadAll ds

/-- An offset that is jumped to is among the targets. -/
theorem mem_targets {d : Placed} (harity : d.HasArity) {n t : Nat}
    (hx : (OperandKind.target, n) ∈ d.opcode.operands.zipIdx)
    (ht : (d.operand n).index? = some t) : t ∈ d.targets := by
  have hkind := List.mk_mem_zipIdx_iff_getElem?.mp hx
  have hlt : n < d.operands.length := by
    rw [harity]
    exact (List.getElem?_eq_some_iff.mp hkind).1
  have hvalue : d.operands[n]? = some (d.operand n) := by
    simp [Instruction.operand, List.getD_eq_getElem?_getD, List.getElem?_eq_getElem hlt]
  have hmem : (OperandKind.target, d.operand n) ∈ d.opcode.operands.zip d.operands := by
    apply List.mem_of_getElem? (i := n)
    rw [List.getElem?_zip_eq_some]
    exact ⟨hkind, hvalue⟩
  have htruncate : (d.operand n).truncate maxOffset = t :=
    Double.truncate_of_index? ht ((Double.index?_le ht).trans maxIndex_le_maxOffset)
  exact List.mem_filterMap.mpr ⟨_, hmem, by simp [htruncate]⟩

/-- The lines of a listing are laid out at the sites of its instructions. -/
theorem map_site_of_shows {ls : List SourceLine} {ds : List Placed}
    (hshows : List.Forall₂ Shows ls ds) : ds.map Placed.site = ls.map SourceLine.site :=
  map_site_eq (R := fun line d => line.operands.map Token.text = d.words) hshows

section Listing

variable {p : Program} {ds : List Placed} {l : Layout} {fs : List (String × Extent)}

/-- The layout of the listing of a verified program: it is as long as the program, its lines
stand for the instructions, and the offsets that are jumped to have their labels. -/
theorem layout_listing (hds : p.decode = .ok ds)
    (hadmits : ∀ d ∈ ds, ∀ x ∈ d.opcode.operands.zipIdx, CodeMap.Admits ⟨p.size, ds⟩ d x.1 x.2) :
    ∃ text l, p.listing = .ok text ∧ layout text = .ok l ∧ l.length = p.size ∧
      List.Forall₂ Shows l.lines ds ∧
      ∀ d ∈ ds, d.offset ∈ ds.flatMap Placed.targets →
        l.labels.lookup (labelName d.offset) = some d.offset := by
  rcases lines_listing hds hadmits with ⟨text, htext, hlines⟩
  have hplaced := Program.placed_of_decode hds
  have hwords : ∀ d ∈ placeFrom codeStart (ds.map Placed.toInstruction),
      ∀ w ∈ d.words, IsWord w.toList := by
    rw [← hplaced]
    exact fun d hd => isWord_words (hadmits d hd)
  have hnew : ∀ d ∈ placeFrom codeStart (ds.map Placed.toInstruction),
      ([] : List (String × Nat)).lookup (labelName d.offset) = none := fun _ _ => rfl
  rcases collect_listing (ds.flatMap Placed.targets) hwords hnew 1 with ⟨l, hl, hshows, _, hlabels⟩
  rw [← hplaced] at hl hshows hlabels
  have hlayout : layout text = .ok l := by
    rw [layout, hlines]
    exact hl
  refine ⟨text, l, htext, hlayout, ?_, hshows, hlabels⟩
  -- The lines are laid out from the opcodes alone, and these are the program's.
  have hops : List.Forall₂ (fun line i => i.opcode = line.opcode ∧ i.HasArity) l.lines
      (ds.map Placed.toInstruction) := by
    rw [List.forall₂_map_right_iff]
    have hboth := (List.forall₂_and_left ds l.lines).mpr
      ⟨fun d hd => Program.hasArity_of_mem hds hd, List.Forall₂.flip hshows⟩
    refine List.Forall₂.flip (hboth.imp ?_)
    exact fun d line hline => ⟨congrArg Prod.fst hline.2.1, hline.1⟩
  have hlaid : LaidOut codeStart l.lines l.length := laidOut_of_collect hl
  rw [Program.ofCode_of_decode hds, Program.size_ofCode, hlaid.finish_eq hops]

/-- The functions of a listing are found when its headers and end marks alternate. -/
theorem routines_of_shows (hds : p.decode = .ok ds) (hshows : List.Forall₂ Shows l.lines ds)
    (halternates : Alternates (ds.map fun d => d.opcode)) : ∃ fs, l.routines = .ok fs := by
  have hsites := map_site_of_shows hshows
  rw [map_opcode_of_site hsites, alternates_iff] at halternates
  refine collectRoutines_of_alternates ?_ ?_ (fun _ _ => rfl) (by simp) halternates
  · intro line hline
    rcases List.append_of_mem hline with ⟨earlier, later, hsplit⟩
    have hshown : List.Forall₂ (flip Shows) ds l.lines := List.Forall₂.flip hshows
    rw [hsplit] at hshown
    rcases split_of_forall₂ hshown with ⟨_, d, _, _, hd, _⟩
    exact operands_of_isHeader hd
  · have hordered : (ds.map Placed.site).Pairwise fun s s' => s.2 < s'.2 :=
      List.pairwise_map.mpr (Program.pairwise_of_decode hds)
    rw [hsites, List.pairwise_map] at hordered
    exact hordered

/-- The function of a header is found under its name. -/
theorem resolveFunction_functionName (hfs : l.routines = .ok fs)
    (hshows : List.Forall₂ Shows l.lines ds) {earlier later : List Placed} {d : Placed}
    (hsplit : ds = earlier ++ d :: later) (hheader : d.opcode.isHeader = true) :
    (l.scope fs).resolveFunction (functionName d.offset) =
      .ok ⟨d.offset, (endAfter (later.map Placed.site)).getD 0⟩ := by
  rw [hsplit] at hshows
  rcases split_of_forall₂ hshows with ⟨earlier', line, later', hlines, hline, hlater⟩
  have hop : d.opcode = line.opcode := congrArg Prod.fst hline.1
  have hoffset : d.offset = line.offset := congrArg Prod.snd hline.1
  rw [hop] at hheader
  rcases operands_of_isHeader hline hheader with ⟨token, rest, hoperands, htoken⟩
  rcases (lookup_of_collectRoutines hfs (by simp)).2.2 earlier' line later' hlines hheader with
    ⟨token', rest', finish, hoperands', hend, hlookup⟩
  rw [hoperands] at hoperands'
  cases hoperands'
  rw [htoken] at hlookup
  rw [map_site_of_shows hlater, hend, hoffset]
  exact Scope.resolveFunction_eq_ok.mpr hlookup

/-- The names of a listing stand for what its instructions refer to. -/
theorem serves_of_shows (hds : p.decode = .ok ds)
    (hadmits : ∀ d ∈ ds, ∀ x ∈ d.opcode.operands.zipIdx, CodeMap.Admits ⟨p.size, ds⟩ d x.1 x.2)
    (hlength : l.length = p.size)
    (hlabels : ∀ d ∈ ds, d.offset ∈ ds.flatMap Placed.targets →
      l.labels.lookup (labelName d.offset) = some d.offset)
    (hfs : l.routines = .ok fs) (hshows : List.Forall₂ Shows l.lines ds)
    {earlier later : List Placed} {d : Placed} (hsplit : ds = earlier ++ d :: later) :
    (l.scope fs).Serves d ((endAfter (later.map Placed.site)).getD 0) := by
  have hd : d ∈ ds := by simp [hsplit]
  refine ⟨?_, ?_, ?_⟩
  · intro n t hx ht
    rcases hadmits d hd _ hx with ⟨t', ht', _, hlt, hboundary⟩
    rw [ht] at ht'
    cases ht'
    rcases CodeMap.isBoundary_eq_true.mp hboundary with ⟨d', hd', rfl⟩
    have hmem : d'.offset ∈ ds.flatMap Placed.targets :=
      List.mem_flatMap.mpr ⟨d, hd, mem_targets (Program.hasArity_of_mem hds hd) hx ht⟩
    refine Scope.resolveLabel_eq_ok.mpr ⟨_, labelOf?_colon _, hlabels d' hd' hmem, ?_⟩
    exact hlt.trans_eq hlength.symm
  · intro n t hx ht
    rcases hadmits d hd _ hx with ⟨t', ht', _, _, hheader⟩
    rw [ht] at ht'
    cases ht'
    rcases CodeMap.isHeader_eq_true.mp hheader with ⟨d', hd', rfl, hheader'⟩
    rcases List.append_of_mem hd' with ⟨earlier', later', hsplit'⟩
    exact ⟨_, resolveFunction_functionName hfs hshows hsplit' hheader', rfl⟩
  · intro hheader
    exact ⟨_, resolveFunction_functionName hfs hshows hsplit hheader, rfl⟩

/-- The lines of a listing give the instructions that are read back. -/
theorem emit_of_shows {s : Scope} {ls : List SourceLine} (hshows : List.Forall₂ Shows ls ds)
    (hemit : ∀ earlier d later line, ds = earlier ++ d :: later → Shows line d →
      s.emit line = .ok (d.reread ((endAfter (later.map Placed.site)).getD 0))) :
    List.Forall₂ (fun line i => s.emit line = .ok i) ls (rereadAll ds) := by
  induction hshows with
  | nil => exact List.Forall₂.nil
  | @cons line d ls ds hline _ ih =>
    refine List.Forall₂.cons (hemit [] d ds line rfl hline) (ih ?_)
    intro earlier d' later line' hsplit hline'
    exact hemit (d :: earlier) d' later line' (by rw [hsplit]; rfl) hline'

/-- What the listing of a verified program assembles to: nothing unless headers and end marks
alternate, and then the instructions that are read back. -/
theorem assemble_listing (hds : p.decode = .ok ds)
    (hadmits : ∀ d ∈ ds, ∀ x ∈ d.opcode.operands.zipIdx, CodeMap.Admits ⟨p.size, ds⟩ d x.1 x.2) :
    ∃ text, p.listing = .ok text ∧
      ((∃ q, assemble text = .ok q) → Alternates (ds.map fun d => d.opcode)) ∧
      (Alternates (ds.map fun d => d.opcode) →
        assemble text = .ok (Program.ofCode ((rereadAll ds).flatMap Instruction.encode))) := by
  rcases layout_listing hds hadmits with ⟨text, l, htext, hlayout, hlength, hshows, hlabels⟩
  refine ⟨text, htext, ?_, ?_⟩
  · rintro ⟨q, hq⟩
    rcases assemble_eq_ok.mp hq with ⟨l', fs, _, hl', hfs, _⟩
    rw [hlayout] at hl'
    cases hl'
    rw [map_opcode_of_site (map_site_of_shows hshows), alternates_iff]
    exact alternates_of_collectRoutines hfs
  · intro halternates
    rcases routines_of_shows hds hshows halternates with ⟨fs, hfs⟩
    refine assemble_eq_ok.mpr ⟨l, fs, rereadAll ds, hlayout, hfs, emit_of_shows hshows ?_, rfl⟩
    intro earlier d later line hsplit hline
    have hserves := serves_of_shows hds hadmits hlength hlabels hfs hshows hsplit
    have hop : line.opcode = d.opcode := (congrArg Prod.fst hline.1).symm
    exact Scope.emit_words (hadmits d (by simp [hsplit])) hserves hop hline.2

end Listing

end StackMachine.Assembly
