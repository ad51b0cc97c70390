import StackMachine.Proofs.Fallible
import StackMachine.Proofs.Tools.Filing
import StackMachine.Tools.Assembler

/-!
# Assembling several files

The assembler takes its files one after the other, and puts each output next to its source.
As long as no output is written over a source, the files do not meet: each output depends on
its own source alone, also if the source is listed twice, and everything else stays.

Main definitions:

- `Separate`, files whose outputs are apart from them;
- `Assembled`, the contents after a batch.

Main results:

- Theorem `assembleFile_leaves`: one file replaces or removes one output.
- Theorem `assembleAll_leaves`: each file of a batch is assembled as if it were alone.
- Theorem `Assembled.unique`: the outcome of a batch depends on its members alone.
- Theorem `run_leaves`: the outcome and the exit of the tool.
- Theorem `run_workspace`: the same in a directory tree.
- Theorem `batch_independent`: the same with files under their paths, read off file by file.
-/

namespace StackMachine.AssemblerTool

open Fallible

/-- What a text is assembled into, if it is accepted. -/
def product? (text : String) : Option (List UInt8) :=
  (Assembly.assemble text).toOption.map fun p => p.bytes.toList

section Filing

variable {σ κ : Type} [DecidableEq κ] [Host (StateM σ)] (F : Filing σ κ)

/-! ## One file -/

/-- The place of the output of a file. -/
def output (path : String) : Option κ := F.place (Host.withExtension path extension)

/-- A file without a text touches nothing. -/
theorem assembleFile_leaves_of_none {f : Contents κ} {path : String}
    (htext : F.text? f path = none) :
    Leaves F.Shows f f (fun r => r.toOption = none) (assembleFile path) := by
  unfold assembleFile
  refine (F.readText_leaves f path).bind fun r hr => ?_
  rw [htext] at hr
  cases r with
  | error e => exact .pure rfl
  | ok text => cases hr

/-- What an output held before is gone, whether its text is accepted or not. -/
theorem assembleFile_leaves {f : Contents κ} {path text : String} {k : κ}
    (htext : F.text? f path = some text) (hk : output F path = some k) :
    Leaves F.Shows f (Function.update f k (product? text))
      (fun r => r.toOption.isSome = (product? text).isSome) (assembleFile path) := by
  unfold assembleFile
  refine (F.readText_leaves f path).bind fun r hr => ?_
  rw [htext] at hr
  cases r with
  | error e => cases hr
  | ok source =>
    cases hr
    refine (F.writeBytes_leaves f [] hk).bind fun r hr => ?_
    subst hr
    unfold product?
    dsimp only
    cases Assembly.assemble text with
    | error fault =>
      refine (F.remove_leaves _ hk).bind fun _ _ => ?_
      rw [Function.update_idem]
      exact (F.log_leaves _ _ _).bind fun _ _ => .pure rfl
    | ok program =>
      refine (F.writeBytes_leaves _ _ hk).bind fun r hr => ?_
      subst hr
      rw [Function.update_idem]
      exact (F.log_leaves _ _ _).bind fun _ _ => .pure rfl

/-! ## A batch -/

/-- Whether a file has a text that is accepted. -/
def accepts (f : Contents κ) (path : String) : Bool :=
  ((F.text? f path).bind product?).isSome

/-- The outputs of some files can be written, and none of them is a file of the batch.
Outputs are in one place only if they are outputs of one file. -/
structure Separate (f : Contents κ) (paths : List String) : Prop where
  fits : ∀ p ∈ paths, (F.text? f p).isSome → (output F p).isSome
  apart : ∀ p ∈ paths, ∀ q ∈ paths, ∀ k, output F q = some k → F.place p ≠ some k
  joint : ∀ p ∈ paths, ∀ q ∈ paths, (F.text? f p).isSome → (F.text? f q).isSome →
    ∀ k, output F p = some k → output F q = some k → F.place p = F.place q

/-- The contents after some files are assembled, each as if it were alone. -/
structure Assembled (f g : Contents κ) (paths : List String) : Prop where
  written : ∀ p ∈ paths, ∀ text, F.text? f p = some text →
    ∀ k, output F p = some k → g k = product? text
  kept : ∀ k, (∀ p ∈ paths, (F.text? f p).isSome → output F p ≠ some k) → g k = f k

variable {F}

/-- A file elsewhere does not change the text at a path. -/
theorem text?_update {f : Contents κ} {path : String} {k : κ} (hk : F.place path ≠ some k)
    (bytes : Option (List UInt8)) : F.text? (Function.update f k bytes) path = F.text? f path := by
  unfold Filing.text?
  cases hplace : F.place path with
  | none => rfl
  | some k' =>
    have hne : k' ≠ k := by
      rintro rfl
      exact hk hplace
    rw [Option.bind_some, Function.update_of_ne hne, Option.bind_some]

/-- Fewer paths are separate too. -/
theorem Separate.of_cons {f : Contents κ} {path : String} {paths : List String}
    (h : Separate F f (path :: paths)) : Separate F f paths where
  fits p hp := h.fits p (List.mem_cons_of_mem _ hp)
  apart p hp q hq := h.apart p (List.mem_cons_of_mem _ hp) q (List.mem_cons_of_mem _ hq)
  joint p hp q hq := h.joint p (List.mem_cons_of_mem _ hp) q (List.mem_cons_of_mem _ hq)

/-- A batch finds the texts that were there before one of its outputs was written. -/
theorem Separate.text?_update {f : Contents κ} {paths : List String} (h : Separate F f paths)
    {p q : String} {k : κ} (hp : p ∈ paths) (hq : q ∈ paths) (hk : output F q = some k)
    (bytes : Option (List UInt8)) : F.text? (Function.update f k bytes) p = F.text? f p :=
  AssemblerTool.text?_update (h.apart p hp q hq k hk) bytes

/-- The other paths are separate still when the output of one is written. -/
theorem Separate.update {f : Contents κ} {path : String} {paths : List String} {k : κ}
    (h : Separate F f (path :: paths)) (hk : output F path = some k)
    (bytes : Option (List UInt8)) : Separate F (Function.update f k bytes) paths where
  fits p hp := by
    rw [h.text?_update (List.mem_cons_of_mem _ hp) List.mem_cons_self hk]
    exact h.of_cons.fits p hp
  apart := h.of_cons.apart
  joint p hp q hq := by
    rw [h.text?_update (List.mem_cons_of_mem _ hp) List.mem_cons_self hk,
      h.text?_update (List.mem_cons_of_mem _ hq) List.mem_cons_self hk]
    exact h.of_cons.joint p hp q hq

/-- A path without a text leaves all files as the other paths do. -/
theorem Assembled.cons_of_none {f g : Contents κ} {path : String} {paths : List String}
    (htext : F.text? f path = none) (h : Assembled F f g paths) :
    Assembled F f g (path :: paths) where
  written p hp text hp' := by
    rcases List.mem_cons.mp hp with rfl | hp
    · rw [htext] at hp'
      cases hp'
    · exact h.written p hp text hp'
  kept k hk := h.kept k fun p hp => hk p (List.mem_cons_of_mem _ hp)

/-- The outputs that are written later are not in the way of one written before, since one
in the same place is an output of the same file. -/
theorem Assembled.cons {f g : Contents κ} {path text : String} {paths : List String} {k : κ}
    (hsep : Separate F f (path :: paths)) (htext : F.text? f path = some text)
    (hk : output F path = some k)
    (h : Assembled F (Function.update f k (product? text)) g paths) :
    Assembled F f g (path :: paths) where
  written := by
    have hsame (q : String) (hq : q ∈ paths) :=
      hsep.text?_update (List.mem_cons_of_mem _ hq) List.mem_cons_self hk (product? text)
    intro p hp text' htext' k' hk'
    rcases List.mem_cons.mp hp with rfl | hp
    · rw [hk] at hk'
      rw [htext] at htext'
      cases hk'
      cases htext'
      by_cases hlater : ∃ q ∈ paths, (F.text? f q).isSome ∧ output F q = some k
      · obtain ⟨q, hq, hsome, hqk⟩ := hlater
        have hplace : F.place q = F.place p :=
          hsep.joint q (List.mem_cons_of_mem _ hq) p hp hsome (by rw [htext]; rfl) k hqk hk
        have hqtext : F.text? f q = some text := by rw [Filing.text?, hplace, ← htext]; rfl
        exact h.written q hq text (by rw [hsame q hq, hqtext]) k hqk
      · rw [h.kept k, Function.update_self]
        intro q hq hsome hqk
        exact hlater ⟨q, hq, hsame q hq ▸ hsome, hqk⟩
    · exact h.written p hp text' (by rw [hsame p hp, htext']) k' hk'
  kept := by
    intro k' hk'
    have hne : k' ≠ k := by
      rintro rfl
      exact hk' path List.mem_cons_self (by rw [htext]; rfl) hk
    rw [h.kept k', Function.update_of_ne hne]
    intro p hp hsome
    refine hk' p (List.mem_cons_of_mem _ hp) ?_
    rwa [hsep.text?_update (List.mem_cons_of_mem _ hp) List.mem_cons_self hk] at hsome

/-- What is left by a batch depends on the files in it, not on how they are listed. -/
theorem Assembled.unique {f g g' : Contents κ} {paths paths' : List String}
    (h : Assembled F f g paths) (h' : Assembled F f g' paths')
    (hmem : ∀ p, p ∈ paths' ↔ p ∈ paths) : g' = g := by
  funext k
  by_cases hout : ∃ p ∈ paths, (F.text? f p).isSome ∧ output F p = some k
  · obtain ⟨p, hp, hsome, hk⟩ := hout
    obtain ⟨text, htext⟩ := Option.isSome_iff_exists.mp hsome
    rw [h.written p hp text htext k hk, h'.written p ((hmem p).mpr hp) text htext k hk]
  · rw [h.kept k fun p hp hsome hk => hout ⟨p, hp, hsome, hk⟩,
      h'.kept k fun p hp hsome hk => hout ⟨p, (hmem p).mp hp, hsome, hk⟩]

/-- Each file of a batch is assembled as if it were alone, and those that are not accepted are
counted as often as they are listed. -/
theorem assembleAll_leaves {f : Contents κ} {paths : List String} (hsep : Separate F f paths) :
    ∃ g, Assembled F f g paths ∧
      Leaves F.Shows f g (· = paths.countP fun p => !accepts F f p) (assembleAll paths) := by
  -- The contents change with each file, so the induction is for all contents.
  induction paths generalizing f with
  | nil => exact ⟨f, ⟨by simp, by simp⟩, .pure rfl⟩
  | cons path paths ih =>
    unfold assembleAll
    cases htext : F.text? f path with
    | none =>
      obtain ⟨g, hg, hrest⟩ := ih hsep.of_cons
      refine ⟨g, hg.cons_of_none htext, ?_⟩
      have haccepts : accepts F f path = false := by rw [accepts, htext]; rfl
      refine (assembleFile_leaves_of_none F htext).bind fun r hr => ?_
      cases r with
      | ok path' => cases hr
      | error e =>
        refine hrest.bind fun n hn => .pure ?_
        rw [List.countP_cons_of_pos (by rw [haccepts]; rfl), hn]
    | some text =>
      have hfits : (output F path).isSome :=
        hsep.fits path List.mem_cons_self (by rw [htext]; rfl)
      obtain ⟨k, hk⟩ := Option.isSome_iff_exists.mp hfits
      obtain ⟨g, hg, hrest⟩ := ih (hsep.update hk (product? text))
      refine ⟨g, hg.cons hsep htext hk, ?_⟩
      have haccepts : accepts F f path = (product? text).isSome := by rw [accepts, htext]; rfl
      have hlater (p : String) (hp : p ∈ paths) :
          accepts F (Function.update f k (product? text)) p = accepts F f p := by
        rw [accepts, accepts,
          hsep.text?_update (List.mem_cons_of_mem _ hp) List.mem_cons_self hk]
      have hcount : (paths.countP fun p => !accepts F (Function.update f k (product? text)) p) =
          paths.countP fun p => !accepts F f p :=
        List.countP_congr fun p hp => by rw [hlater p hp]
      refine (assembleFile_leaves F htext hk).bind fun r hr => ?_
      rw [← haccepts] at hr
      cases r with
      | ok path' =>
        refine (F.log_leaves _ _ _).bind fun _ _ => hrest.mono fun n hn => ?_
        rw [List.countP_cons_of_neg (by rw [← hr]; exact Bool.false_ne_true), hn, hcount]
      | error e =>
        refine hrest.bind fun n hn => .pure ?_
        rw [List.countP_cons_of_pos (by rw [← hr]; rfl), hn, hcount]

/-- The tool assembles the files it is given, and fails if one of them is not accepted. -/
theorem run_leaves {f : Contents κ} {paths : List String} (hsep : Separate F f paths)
    (name : String) {lookup : String → Option String} {settings : Settings}
    (hsettings : Settings.ofEnvironment lookup = .ok settings)
    (hhelp : Host.asksForHelp paths = false) (hne : paths ≠ []) :
    ∃ g, Assembled F f g paths ∧
      Leaves F.Shows f g
        (fun e => (e = .success ∧ ∀ p ∈ paths, accepts F f p = true) ∨
          (e = .failure ∧ ∃ p ∈ paths, accepts F f p = false))
        (run name lookup paths) := by
  obtain ⟨g, hg, hall⟩ := assembleAll_leaves hsep
  refine ⟨g, hg, ?_⟩
  unfold run
  rw [hhelp, if_neg Bool.false_ne_true]
  refine F.withSettings_leaves hsettings ?_
  rw [List.isEmpty_eq_false_iff.mpr hne, if_neg Bool.false_ne_true]
  refine hall.bind fun failed hfailed => ?_
  by_cases hzero : failed = 0
  · rw [if_pos hzero]
    refine .pure (Or.inl ⟨rfl, ?_⟩)
    simpa [hfailed, List.countP_eq_zero] using hzero
  · rw [if_neg hzero]
    refine (F.log_leaves _ _ _).bind fun _ _ => .pure (Or.inr ⟨rfl, ?_⟩)
    simpa [hfailed, List.countP_eq_zero] using hzero

end Filing

theorem withExtension_eq (path : String) : Host.withExtension path extension = path ++ ".dk" := by
  rw [show ".dk" = "." ++ extension from rfl, ← String.append_assoc]
  rfl

/-! ## In a directory tree -/

/-- In a workspace, an output is where its path can be written. -/
theorem output_workspace {t : FileTree} {path : String} {k : Place} :
    output (Workspace.filing t) path = some k ↔ t.writable (path ++ ".dk") = .ok k := by
  rw [← withExtension_eq]
  exact toOption_eq_some

/-- In a tree, an output is next to its source, so two outputs in one place have one
source. -/
theorem separate_workspace {t : FileTree} {paths : List String}
    (hfits : ∀ p ∈ paths, ∀ bytes, t.read p = .ok bytes → ∃ k, t.writable (p ++ ".dk") = .ok k)
    (happart : ∀ p ∈ paths, ∀ q ∈ paths, ∀ k, t.writable (q ++ ".dk") = .ok k →
      t.writable p ≠ .ok k) :
    Separate (Workspace.filing t) t.contents? paths := by
  have hplace (p : String) (hsome : ((Workspace.filing t).text? t.contents? p).isSome) :
      ∃ k bytes, t.writable p = .ok k ∧ t.contents? k = some bytes := by
    obtain ⟨text, htext⟩ := Option.isSome_iff_exists.mp hsome
    obtain ⟨bytes, hbytes, -⟩ := Option.bind_eq_some_iff.mp htext
    obtain ⟨k, hk, hbytes⟩ := Option.bind_eq_some_iff.mp hbytes
    exact ⟨k, bytes, toOption_eq_some.mp hk, hbytes⟩
  refine ⟨?_, ?_, ?_⟩
  · intro p hp hsome
    obtain ⟨k, bytes, hk, hbytes⟩ := hplace p hsome
    obtain ⟨l, hl⟩ := hfits p hp bytes (FileTree.read_eq_ok.mpr ⟨k, hk, hbytes⟩)
    exact Option.isSome_iff_exists.mpr ⟨l, output_workspace.mpr hl⟩
  · intro p hp q hq k hk hplace
    exact happart p hp q hq k (output_workspace.mp hk) (toOption_eq_some.mp hplace)
  · intro p _ q _ hp hq l hpl hql
    obtain ⟨k, _, hk, _⟩ := hplace p hp
    obtain ⟨k', _, hk', _⟩ := hplace q hq
    have hsame : k = k' := FileTree.writable_append_inj (by decide) (by decide) hk hk'
      (output_workspace.mp hpl) (output_workspace.mp hql)
    exact (toOption_eq_some.mpr hk).trans (toOption_eq_some.mpr (hsame ▸ hk')).symm

/-- The tool assembles the files of a tree and leaves its directories alone, if all outputs can
be written and none of them is one of the files. -/
theorem run_workspace (w : Workspace) (name : String) {lookup : String → Option String}
    {settings : Settings} (hsettings : Settings.ofEnvironment lookup = .ok settings)
    {paths : List String} (hne : paths ≠ []) (hhelp : Host.asksForHelp paths = false)
    (hfits : ∀ p ∈ paths, ∀ bytes, w.files.read p = .ok bytes →
      ∃ k, w.files.writable (p ++ ".dk") = .ok k)
    (happart : ∀ p ∈ paths, ∀ q ∈ paths, ∀ k, w.files.writable (q ++ ".dk") = .ok k →
      w.files.writable p ≠ .ok k) :
    ∃ e w', (run name lookup paths : StateM Workspace Exit).run w = (e, w') ∧
      w'.files.directories = w.files.directories ∧
      Assembled (Workspace.filing w.files) w.files.contents? w'.files.contents? paths ∧
      ((e = .success ∧
          ∀ p ∈ paths, accepts (Workspace.filing w.files) w.files.contents? p = true) ∨
        (e = .failure ∧
          ∃ p ∈ paths, accepts (Workspace.filing w.files) w.files.contents? p = false)) := by
  obtain ⟨g, hg, hrun⟩ :=
    run_leaves (separate_workspace hfits happart) name hsettings hhelp hne
  obtain ⟨e, w', hw, ⟨hdirectories, rfl⟩, he⟩ := hrun w ⟨rfl, rfl⟩
  exact ⟨e, w', hw, hdirectories, hg, he⟩

/-! ## On a shelf -/

theorem shelf_text? (f : Contents String) (path : String) :
    Shelf.filing.text? f path = (f path).bind Text.ofBytes? := rfl

theorem shelf_output (path : String) : output Shelf.filing path = some (path ++ ".dk") :=
  congrArg some (withExtension_eq path)

/-- On a shelf, paths are apart from their outputs as soon as they are different. -/
theorem separate_shelf (f : Contents String) {paths : List String}
    (happart : ∀ p ∈ paths, ∀ q ∈ paths, p ≠ q ++ ".dk") : Separate Shelf.filing f paths where
  fits p _ _ := rfl
  apart p hp q hq k hk hplace := by
    rw [shelf_output] at hk
    exact happart p hp q hq (Option.some_inj.mp (hplace.trans hk.symm))
  joint p _ q _ _ _ k hpk hqk := by
    have hsame : p ++ ".dk" = q ++ ".dk" := by
      rw [← Option.some_inj, ← shelf_output, ← shelf_output, hpk, hqk]
    exact congrArg some ((String.append_left_inj _).mp hsame)

/-- On a shelf, a path is not accepted if there is no file, if it is not text, or if the text does
not assemble. -/
theorem accepts_shelf_eq_false {f : Contents String} {path : String} :
    accepts Shelf.filing f path = false ↔
      f path = none ∨ ∃ bytes, f path = some bytes ∧
        (Text.ofBytes? bytes = none ∨
          ∃ text fault, Text.ofBytes? bytes = some text ∧
            Assembly.assemble text = .error fault) := by
  unfold accepts product?
  rw [shelf_text?]
  cases f path with
  | none => simp
  | some bytes =>
    cases htext : Text.ofBytes? bytes with
    | none => simp [htext]
    | some text =>
      cases hassemble : Assembly.assemble text <;> simp [htext, hassemble, Except.toOption]

/-- How the tool ends, and the shelf it leaves. -/
def runOn (w : Shelf) (name : String) (lookup : String → Option String) (paths : List String) :
    Exit × Shelf :=
  (run name lookup paths : StateM Shelf Exit) w

/-- What the tool leaves on a shelf is assembled from what it found there. -/
theorem runOn_spec (w : Shelf) (name : String) {lookup : String → Option String}
    {settings : Settings} (hsettings : Settings.ofEnvironment lookup = .ok settings)
    {paths : List String} (hne : paths ≠ []) (hhelp : Host.asksForHelp paths = false)
    (happart : ∀ p ∈ paths, ∀ q ∈ paths, p ≠ q ++ ".dk") :
    Assembled Shelf.filing w.files (runOn w name lookup paths).2.files paths ∧
      (((runOn w name lookup paths).1 = .success ∧
          ∀ p ∈ paths, accepts Shelf.filing w.files p = true) ∨
        ((runOn w name lookup paths).1 = .failure ∧
          ∃ p ∈ paths, accepts Shelf.filing w.files p = false)) := by
  obtain ⟨g, hg, hrun⟩ :=
    run_leaves (separate_shelf w.files happart) name hsettings hhelp hne
  obtain ⟨e, w', hw, hfiles, he⟩ := hrun w rfl
  have hrunOn : runOn w name lookup paths = (e, w') := hw
  rw [hrunOn]
  subst hfiles
  exact ⟨hg, he⟩

/-- The order of the files and their repetitions do not matter. -/
theorem runOn_files_congr (w : Shelf) (name : String) {lookup : String → Option String}
    {settings : Settings} (hsettings : Settings.ofEnvironment lookup = .ok settings)
    {paths paths' : List String} (hne : paths ≠ []) (hhelp : Host.asksForHelp paths = false)
    (happart : ∀ p ∈ paths, ∀ q ∈ paths, p ≠ q ++ ".dk") (hmem : ∀ p, p ∈ paths' ↔ p ∈ paths) :
    (runOn w name lookup paths').2.files = (runOn w name lookup paths).2.files := by
  have hne' : paths' ≠ [] := by
    obtain ⟨p, hp⟩ := List.exists_mem_of_ne_nil paths hne
    exact List.ne_nil_of_mem ((hmem p).mpr hp)
  have hhelp' : Host.asksForHelp paths' = false := by
    rw [Host.asksForHelp, List.any_eq_false] at hhelp ⊢
    exact fun p hp => hhelp p ((hmem p).mp hp)
  have happart' : ∀ p ∈ paths', ∀ q ∈ paths', p ≠ q ++ ".dk" :=
    fun p hp q hq => happart p ((hmem p).mp hp) q ((hmem q).mp hq)
  exact (runOn_spec w name hsettings hne hhelp happart).1.unique
    (runOn_spec w name hsettings hne' hhelp' happart').1 hmem

/-- Files are assembled independently of each other.  A source that is accepted is next to
what it is assembled into and one that is rejected is next to nothing, whatever was there
before; all other files stay, the sources among them.  The tool fails exactly if one of its
files is missing, holds no text or is rejected, and the order of the files and their
repetitions do not matter. -/
theorem batch_independent (w : Shelf) (name : String) {lookup : String → Option String}
    {settings : Settings} (hsettings : Settings.ofEnvironment lookup = .ok settings)
    {paths : List String} (hne : paths ≠ []) (hhelp : Host.asksForHelp paths = false)
    (happart : ∀ p ∈ paths, ∀ q ∈ paths, p ≠ q ++ ".dk") :
    (∀ p ∈ paths, ∀ bytes text, w.files p = some bytes → Text.ofBytes? bytes = some text →
      (∀ program, Assembly.assemble text = .ok program →
        (runOn w name lookup paths).2.files (p ++ ".dk") = some program.bytes.toList) ∧
      ∀ fault, Assembly.assemble text = .error fault →
        (runOn w name lookup paths).2.files (p ++ ".dk") = none) ∧
    (∀ path, (∀ p ∈ paths, ∀ bytes text, w.files p = some bytes →
        Text.ofBytes? bytes = some text → path ≠ p ++ ".dk") →
      (runOn w name lookup paths).2.files path = w.files path) ∧
    (∀ p ∈ paths, (runOn w name lookup paths).2.files p = w.files p) ∧
    ((runOn w name lookup paths).1 = .code 1 ↔
      ∃ p ∈ paths, w.files p = none ∨ ∃ bytes, w.files p = some bytes ∧
        (Text.ofBytes? bytes = none ∨ ∃ text fault, Text.ofBytes? bytes = some text ∧
          Assembly.assemble text = .error fault)) ∧
    ((runOn w name lookup paths).1 ≠ .code 1 → (runOn w name lookup paths).1 = .code 0) ∧
    ∀ paths', (∀ p, p ∈ paths' ↔ p ∈ paths) →
      (runOn w name lookup paths').2.files = (runOn w name lookup paths).2.files := by
  obtain ⟨hfiles, hexit⟩ := runOn_spec w name hsettings hne hhelp happart
  have hkept (path : String) (hpath : ∀ p ∈ paths, ∀ bytes text, w.files p = some bytes →
      Text.ofBytes? bytes = some text → path ≠ p ++ ".dk") :
      (runOn w name lookup paths).2.files path = w.files path := by
    refine hfiles.kept path fun p hp hsome hout => ?_
    obtain ⟨text, htext⟩ := Option.isSome_iff_exists.mp hsome
    obtain ⟨bytes, hbytes, htext⟩ := Option.bind_eq_some_iff.mp htext
    rw [shelf_output, Option.some_inj] at hout
    exact hpath p hp bytes text hbytes htext hout.symm
  refine ⟨?_, hkept, ?_, ?_, ?_, ?_⟩
  · intro p hp bytes text hbytes htext
    have hwritten := hfiles.written p hp text
      (by rw [shelf_text?, hbytes, Option.bind_some, htext]) _ (shelf_output p)
    rw [hwritten, product?]
    refine ⟨?_, ?_⟩
    · intro program hprogram
      rw [hprogram]
      rfl
    · intro fault hfault
      rw [hfault]
      rfl
  · intro p hp
    exact hkept p fun q hq _ _ _ _ => happart p hp q hq
  · simp only [← accepts_shelf_eq_false]
    rcases hexit with ⟨hexit, hall⟩ | ⟨hexit, hsome⟩
    · rw [hexit]
      refine ⟨fun hcode => absurd hcode (by decide), ?_⟩
      rintro ⟨p, hp, hnot⟩
      rw [hall p hp] at hnot
      cases hnot
    · exact ⟨fun _ => hsome, fun _ => hexit⟩
  · intro hcode
    rcases hexit with ⟨hexit, _⟩ | ⟨hexit, _⟩
    · exact hexit
    · exact absurd hexit hcode
  · intro paths' hmem
    exact runOn_files_congr w name hsettings hne hhelp happart hmem

/-- A source that is accepted, one that is rejected and bytes that are no text, each next to
an output that was there before. -/
def batchExample : Shelf where
  files path := List.lookup path
    [("one", Text.toBytes "RET"), ("two", Text.toBytes "JMP :nowhere"), ("three", [0xff]),
      ("one.dk", [0]), ("two.dk", [0]), ("three.dk", [0])]
  journal := .empty false 0

/-- Of three files one assembles, one does not and loses its output, and one is no text and keeps
it; the paths in another order, without the repetition, leave the same files. -/
theorem batch_independent_batchExample :
    ∃ w, runOn batchExample "asm" (fun _ => none) ["two", "one", "three", "two"] = (.code 1, w) ∧
      w.files "one.dk" = some (signature ++ Instruction.encode ⟨.ret, []⟩) ∧
      w.files "two.dk" = none ∧ w.files "three.dk" = some [0] ∧
      (runOn batchExample "asm" (fun _ => none) ["one", "two", "three"]).2.files = w.files := by
  have hRet : Assembly.assemble "RET" = .ok (.ofCode (Instruction.encode ⟨.ret, []⟩)) := by
    decide +kernel
  have hJmp : (Assembly.assemble "JMP :nowhere").toOption = none := by decide +kernel
  have hbytes : Text.ofBytes? [0xff] = none := by decide +kernel
  obtain ⟨hout, hkept, -, hexit, -, horder⟩ := batch_independent batchExample "asm"
    (show Settings.ofEnvironment (fun _ => none) = .ok .default from rfl)
    (show ["two", "one", "three", "two"] ≠ [] from List.cons_ne_nil _ _)
    (by decide +kernel) (by decide +kernel)
  refine ⟨_, Prod.ext (hexit.mpr ?_) rfl, ?_, ?_, ?_, ?_⟩
  · exact ⟨"three", by decide +kernel, Or.inr ⟨[0xff], by decide +kernel, Or.inl hbytes⟩⟩
  · exact (hout "one" (by decide +kernel) (Text.toBytes "RET") "RET" (by decide +kernel)
      (by decide +kernel)).1 _ hRet
  · cases hfault : Assembly.assemble "JMP :nowhere" with
    | ok program =>
      rw [hfault] at hJmp
      cases hJmp
    | error fault =>
      exact (hout "two" (by decide +kernel) (Text.toBytes "JMP :nowhere") "JMP :nowhere"
        (by decide +kernel) (by decide +kernel)).2 fault hfault
  · have hthree : batchExample.files "three" = some [0xff] := by decide +kernel
    have hstale : batchExample.files "three.dk" = some [0] := by decide +kernel
    rw [hkept "three.dk", hstale]
    intro p hp bytes text hp' htext
    have hall : ∀ p ∈ ["two", "one", "three", "two"], "three.dk" = p ++ ".dk" → p = "three" := by
      decide +kernel
    intro hsame
    cases hall p hp hsame
    rw [hthree] at hp'
    cases hp'
    rw [hbytes] at htext
    cases htext
  · refine horder _ fun p => ?_
    simp only [List.mem_cons, List.not_mem_nil, or_false]
    grind

end StackMachine.AssemblerTool
