import Mathlib.Logic.Function.Basic
import StackMachine.Proofs.Files.Tree
import StackMachine.Tools.Host

/-!
# Hosts whose files are a map

What a tool does to files is a question about a map from places to contents: reading looks a
place up, writing and removing update it at one place, and logging leaves it alone.  A
`Filing` says which map a state of a host shows, and that the host keeps to it.  What a tool
leaves is then read off its text, with one rule for each action and one for their sequence.

Main definitions:

- `Contents`, what is at each place;
- `Leaves`, what an action does to the contents;
- `Filing`, the laws of a host;
- `Shelf`, files under their paths, with nothing in their way.

Main results:

- Theorem `Leaves.bind`: what two actions leave, one after the other.
- Theorems `Filing.readText_leaves` and `Filing.writeBytes_leaves`: whole files.
- Theorem `Filing.withSettings_leaves`: a tool under settings that are accepted.
-/

namespace StackMachine

open Fallible

/-- What is at each place, if there is a file. -/
abbrev Contents (κ : Type) := κ → Option (List UInt8)

section Leaves

variable {σ κ α β : Type} {Shows : σ → Contents κ → Prop}

/-- From every state that shows the contents `before`, an action comes to one that shows
`after`, and gives a value with the property `P`. -/
def Leaves (Shows : σ → Contents κ → Prop) (before after : Contents κ) (P : α → Prop)
    (action : StateM σ α) : Prop :=
  ∀ s, Shows s before → ∃ a s', action s = (a, s') ∧ Shows s' after ∧ P a

theorem Leaves.pure {before : Contents κ} {P : α → Prop} {a : α} (ha : P a) :
    Leaves Shows before before P (pure a : StateM σ α) :=
  fun s hs => ⟨a, s, rfl, hs, ha⟩

/-- What the first of two actions leaves is what the second finds. -/
theorem Leaves.bind {before between after : Contents κ} {P : α → Prop} {Q : β → Prop}
    {first : StateM σ α} {second : α → StateM σ β} (hfirst : Leaves Shows before between P first)
    (hsecond : ∀ a, P a → Leaves Shows between after Q (second a)) :
    Leaves Shows before after Q (first >>= second) := by
  intro s hs
  obtain ⟨a, s', hrun, hs', ha⟩ := hfirst s hs
  obtain ⟨b, s'', hrun', hs'', hb⟩ := hsecond a ha s' hs'
  refine ⟨b, s'', ?_, hs'', hb⟩
  calc (first >>= second) s = second (first s).1 (first s).2 := rfl
    _ = second a s' := by rw [hrun]
    _ = (b, s'') := hrun'

theorem Leaves.mono {before after : Contents κ} {P Q : α → Prop} {action : StateM σ α}
    (h : Leaves Shows before after P action) (hPQ : ∀ a, P a → Q a) :
    Leaves Shows before after Q action := by
  intro s hs
  obtain ⟨a, s', hrun, hs', ha⟩ := h s hs
  exact ⟨a, s', hrun, hs', hPQ a ha⟩

end Leaves

/-- How the states of a host show contents.  A path leads to a place, or to none, and the
host reads, writes and removes what is there. -/
structure Filing (σ κ : Type) [DecidableEq κ] [Host (StateM σ)] where
  /-- The contents that a state shows. -/
  Shows : σ → Contents κ → Prop
  /-- The place of a path, if a file can be there. -/
  place : String → Option κ
  read_leaves : ∀ path f, Leaves Shows f f (fun r => r.toOption = (place path).bind f)
    (Host.read path)
  write_leaves : ∀ {path k} f bytes, place path = some k →
    Leaves Shows f (Function.update f k (some bytes)) (· = .ok ()) (Host.write path bytes)
  remove_leaves : ∀ {path k} f, place path = some k →
    Leaves Shows f (Function.update f k none) (fun _ => True) (Host.remove path)
  log_leaves : ∀ f level message, Leaves Shows f f (fun _ => True) (Host.log level message)
  configure_leaves : ∀ f settings, Leaves Shows f f (fun _ => True) (Host.configure settings)

namespace Filing

variable {σ κ : Type} [DecidableEq κ] [Host (StateM σ)] (F : Filing σ κ)

/-- The text at a path, if there is a file with one. -/
def text? (f : Contents κ) (path : String) : Option String :=
  ((F.place path).bind f).bind Text.ofBytes?

/-- Reading the bytes of a file leaves all files as they are. -/
theorem readBytes_leaves (f : Contents κ) (path : String) :
    Leaves F.Shows f f (fun r => r.toOption = (F.place path).bind f) (Host.readBytes path) := by
  refine (F.read_leaves path f).bind fun r hr => .pure ?_
  rw [← hr]
  cases r <;> rfl

/-- So does reading its text. -/
theorem readText_leaves (f : Contents κ) (path : String) :
    Leaves F.Shows f f (fun r => r.toOption = F.text? f path) (Host.readText path) := by
  unfold Host.readText text?
  refine (F.readBytes_leaves f path).bind fun r hr => ?_
  rw [← hr]
  cases r with
  | error e => exact .pure rfl
  | ok bytes =>
    dsimp only [Except.toOption, Option.bind_some]
    cases Text.ofBytes? bytes <;> exact .pure rfl

/-- Writing to a path that has a place changes the file at this place only. -/
theorem writeBytes_leaves {path : String} {k : κ} (f : Contents κ) (bytes : List UInt8)
    (hk : F.place path = some k) :
    Leaves F.Shows f (Function.update f k (some bytes)) (· = .ok ())
      (Host.writeBytes path bytes) := by
  refine (F.write_leaves f bytes hk).bind fun r hr => ?_
  subst hr
  exact .pure rfl

/-- Reading settings that are accepted touches no file. -/
theorem withSettings_leaves {f g : Contents κ} {P : Exit → Prop}
    {lookup : String → Option String} {settings : Settings} {tool : Settings → StateM σ Exit}
    (hsettings : Settings.ofEnvironment lookup = .ok settings)
    (htool : Leaves F.Shows f g P (tool settings)) :
    Leaves F.Shows f g P (Host.withSettings lookup tool) := by
  unfold Host.withSettings
  rw [hsettings]
  exact (F.configure_leaves f settings).bind fun _ _ => htool

end Filing

/-! ## Files under their paths -/

/-- Files under their paths, and a log. -/
structure Shelf where
  files : String → Option (List UInt8)
  journal : Journal

/-- On a shelf every path may hold a file, so that writing and removing always succeed. -/
instance : Host (StateM Shelf) where
  read path := do
    return ((← get).files path).elim (.error PathError.notFound.message) .ok
  write path bytes := do
    modify fun w => { w with files := Function.update w.files path (some bytes) }
    return .ok ()
  remove path := modify fun w => { w with files := Function.update w.files path none }
  refusal _ := return none
  log level message := modify fun w => { w with journal := w.journal.write level message }
  configure s := modify fun w => { w with journal := w.journal.configure s }

/-- The contents of a shelf are its files. -/
def Shelf.filing : Filing Shelf String where
  Shows w f := w.files = f
  place := some
  read_leaves path f := by
    rintro w rfl
    refine ⟨_, w, rfl, rfl, ?_⟩
    cases hbytes : w.files path with
    | none => exact hbytes.symm
    | some bytes => exact hbytes.symm
  write_leaves := by
    rintro path _ f bytes ⟨⟩ w rfl
    exact ⟨_, _, rfl, rfl, rfl⟩
  remove_leaves := by
    rintro path _ f ⟨⟩ w rfl
    exact ⟨_, _, rfl, rfl, trivial⟩
  log_leaves := by
    rintro f level message w rfl
    exact ⟨_, _, rfl, rfl, trivial⟩
  configure_leaves := by
    rintro f settings w rfl
    exact ⟨_, _, rfl, rfl, trivial⟩

/-! ## Files in a directory tree -/

/-- Writing that succeeds leaves a workspace with the new files. -/
theorem Workspace.run_write {w : Workspace} {path : String} {bytes : List UInt8} {files : FileTree}
    (h : w.files.write path bytes = .ok files) :
    (Host.write path bytes : StateM Workspace _).run w = (.ok (), { w with files }) := by
  simp only [Host.write, StateT.run_bind, StateT.run_get, pure_bind, h, StateT.run_set,
    StateT.run_pure]
  rfl

/-- Removing a file leaves a workspace with the other files, or as it is if that fails. -/
theorem Workspace.run_remove (w : Workspace) (path : String) :
    (Host.remove path : StateM Workspace Unit).run w =
      ((), { w with files := (w.files.remove path).toOption.getD w.files }) := by
  cases h : w.files.remove path <;>
    simp only [Host.remove, StateT.run_modify, h, Except.toOption, Option.getD_some,
      Option.getD_none] <;> rfl

/-- The contents of a workspace are those of its tree, as long as the directories stay. -/
def Workspace.filing (t : FileTree) : Filing Workspace Place where
  Shows w f := w.files.directories = t.directories ∧ w.files.contents? = f
  place path := (t.writable path).toOption
  read_leaves := by
    rintro path f w ⟨hdirectories, rfl⟩
    refine ⟨_, w, rfl, ⟨hdirectories, rfl⟩, Option.ext fun bytes => ?_⟩
    rw [toOption_eq_some, mapError_eq_ok, FileTree.read_eq_ok, Option.bind_eq_some_iff]
    simp only [toOption_eq_some, FileTree.writable_congr hdirectories]
  write_leaves := by
    rintro path k f bytes hk w ⟨hdirectories, rfl⟩
    rw [toOption_eq_some, ← FileTree.writable_congr hdirectories] at hk
    exact ⟨_, _, run_write (FileTree.write_of_writable hk bytes),
      ⟨hdirectories, FileTree.contents?_put w.files k bytes⟩, rfl⟩
  remove_leaves := by
    rintro path k f hk w ⟨hdirectories, rfl⟩
    rw [toOption_eq_some, ← FileTree.writable_congr hdirectories] at hk
    have hremove := FileTree.contents?_remove hk
    exact ⟨_, _, run_remove w path, ⟨hremove.1.trans hdirectories, hremove.2⟩, trivial⟩
  log_leaves := by
    rintro f level message w hw
    exact ⟨_, _, rfl, hw, trivial⟩
  configure_leaves := by
    rintro f settings w hw
    exact ⟨_, _, rfl, hw, trivial⟩

end StackMachine
