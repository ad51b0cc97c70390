import Mathlib.Logic.Function.Basic
import StackMachine.Files.Tree
import StackMachine.Proofs.Fallible
import StackMachine.Proofs.Text.Cut

/-!
# Directory trees as maps

Where a file can be written is decided by the directories of a tree, whatever files it holds.
So as long as no directory is added, a path leads to one place, and the files of a tree are a
map from places to their contents.

Main results:

- Theorem `approach_eq_ok`: the directory that a path leads to, by its names.
- Theorem `writable_congr`: the place of a path is decided by the directories.
- Theorem `read_eq_ok`: what is read is what is at that place.
- Theorems `contents?_put` and `contents?_remove`: writing and removing are updates.
- Theorem `writable_append_inj`: paths with an extension appended are in one place only if they
  are without it.
-/

namespace StackMachine.FileTree

open Fallible

/-! ## Places -/

/-- The names that a path is made of. -/
def namesOf (path : String) : List String :=
  ((Text.cut (· == '/') path.toList).filter fun piece => !piece.isEmpty).map String.ofList

/-- Whether a path is neither empty nor too long, and has no zero character. -/
structure Fits (path : String) : Prop where
  nonempty : path ≠ ""
  nonzero : path.toList.contains '\x00' = false
  short : path.utf8ByteSize < maxPathSize

/-- A path that fits is approached through all of its names but the last. -/
theorem approach_of_fits {t : FileTree} {path : String} (hpath : Fits path) :
    t.approach path =
      (namesOf path).getLast?.elim (.ok ([], "."))
        fun last => (·, last) <$> t.enter [] (namesOf path).dropLast := by
  unfold approach
  rw [if_neg hpath.nonempty, hpath.nonzero, if_neg Bool.false_ne_true,
    if_neg (Nat.not_le.mpr hpath.short)]
  dsimp only
  rw [← namesOf]
  cases (namesOf path).getLast? <;> rfl

/-- A path that can be approached fits. -/
theorem fits_of_approach {t : FileTree} {path : String} {target : Place × String}
    (h : t.approach path = .ok target) : Fits path := by
  unfold approach at h
  split at h
  · cases h
  split at h
  · cases h
  split at h
  · cases h
  · rename_i hnonempty hnonzero hshort
    exact ⟨hnonempty, Bool.eq_false_iff.mpr hnonzero, Nat.not_le.mp hshort⟩

/-- A path of no names leads to the top. -/
theorem approach_eq_ok {t : FileTree} {path last : String} {place : Place} :
    t.approach path = .ok (place, last) ↔
      Fits path ∧ ((namesOf path = [] ∧ place = [] ∧ last = ".") ∨
        ∃ above, namesOf path = above ++ [last] ∧ t.enter [] above = .ok place) := by
  refine ⟨fun h => ⟨fits_of_approach h, ?_⟩, ?_⟩
  · rw [approach_of_fits (fits_of_approach h)] at h
    rcases List.eq_nil_or_concat (namesOf path) with hnames | ⟨above, name, hnames⟩
    · rw [hnames] at h ⊢
      cases h
      exact Or.inl ⟨rfl, rfl, rfl⟩
    · rw [hnames, List.concat_eq_append] at h ⊢
      rw [List.getLast?_concat, List.dropLast_concat, Option.elim_some, map_eq_ok] at h
      obtain ⟨_, henter, heq⟩ := h
      cases heq
      exact Or.inr ⟨above, rfl, henter⟩
  · rintro ⟨hpath, ⟨hnames, rfl, rfl⟩ | ⟨above, hnames, henter⟩⟩
    · rw [approach_of_fits hpath, hnames]
      rfl
    · rw [approach_of_fits hpath, hnames, List.getLast?_concat, List.dropLast_concat,
        Option.elim_some, henter]
      rfl

/-- A path is approached through the directories of the names before its last one. -/
theorem enter_of_approach {t : FileTree} {path last name : String} {place above : Place}
    (happroach : t.approach path = .ok (place, last)) (hnames : namesOf path = above ++ [name]) :
    last = name ∧ t.enter [] above = .ok place := by
  rw [approach_eq_ok, hnames] at happroach
  rcases happroach with ⟨-, ⟨hnil, -⟩ | ⟨above', habove, henter⟩⟩
  · simp at hnil
  · obtain ⟨rfl, hlast⟩ := List.append_inj' habove rfl
    cases hlast
    exact ⟨rfl, henter⟩

section Directories

variable {t t' : FileTree} (hdirectories : t.directories = t'.directories)
include hdirectories

/-- Whether a place is a directory depends on the list of directories alone. -/
theorem isDirectory_congr (place : Place) : t.isDirectory place = t'.isDirectory place := by
  rw [isDirectory, isDirectory, hdirectories]

/-- Files in the way change the error only. -/
theorem enter_congr (place : Place) (names : List String) (k : Place) :
    t.enter place names = .ok k ↔ t'.enter place names = .ok k := by
  induction names generalizing place with
  | nil => rfl
  | cons name names ih =>
    simp only [enter, bind_eq_ok, guard_eq_ok, isDirectory_congr hdirectories, ih]

/-- The place of a path is decided by the directories. -/
theorem writable_congr (path : String) (k : Place) :
    t.writable path = .ok k ↔ t'.writable path = .ok k := by
  simp only [writable, bind_eq_ok, Prod.exists, approach_eq_ok, enter_congr hdirectories,
    isDirectory_congr hdirectories]

end Directories

/-- A path is located by approaching it and following its last name. -/
theorem locate_eq_ok {t : FileTree} {path : String} {k : Place} :
    t.locate path = .ok k ↔
      ∃ place last, t.approach path = .ok (place, last) ∧ follow place last = .ok k := by
  simp only [locate, bind_eq_ok, Prod.exists]

/-- A file can be where its path leads to, unless the path or the place is that of a
directory. -/
theorem writable_eq_ok {t : FileTree} {path : String} {k : Place} :
    t.writable path = .ok k ↔
      t.locate path = .ok k ∧ namesDirectory path = false ∧ t.isDirectory k = false := by
  simp only [writable, locate_eq_ok, bind_eq_ok, Prod.exists]
  constructor
  · rintro ⟨place, last, happroach, hplace⟩
    cases hnames : namesDirectory path with
    | true => simp [hnames] at hplace
    | false =>
      simp only [hnames, Bool.false_eq_true, if_false, bind_eq_ok] at hplace
      obtain ⟨k', hfollow, hplace⟩ := hplace
      cases hdirectory : t.isDirectory k' with
      | true => simp [hdirectory] at hplace
      | false =>
        simp only [hdirectory, Bool.false_eq_true, if_false, pure_eq_ok] at hplace
        subst hplace
        exact ⟨⟨place, last, happroach, hfollow⟩, rfl, hdirectory⟩
  · rintro ⟨⟨place, last, happroach, hfollow⟩, hnames, hdirectory⟩
    refine ⟨place, last, happroach, ?_⟩
    simp [hnames, hfollow, hdirectory, bind_eq_ok]

/-! ## Contents -/

/-- What is read is what is at the place of the path. -/
theorem read_eq_ok {t : FileTree} {path : String} {bytes : List UInt8} :
    t.read path = .ok bytes ↔ ∃ k, t.writable path = .ok k ∧ t.contents? k = some bytes := by
  simp only [read, bind_eq_ok, writable_eq_ok]
  refine exists_congr fun k => ?_
  cases t.isDirectory k with
  | true => simp
  | false =>
    cases t.contents? k with
    | none => simp
    | some bytes' => cases namesDirectory path <;> simp

/-- Removing the entries of a place removes what is found there, and nothing else. -/
theorem lookup_filter (files : List (Place × List UInt8)) (place k : Place) :
    (files.filter (·.1 != place)).lookup k = if k = place then none else files.lookup k := by
  induction files with
  | nil => simp
  | cons file files ih =>
    obtain ⟨k', bytes⟩ := file
    by_cases hk' : k' = place
    · rw [List.filter_cons_of_neg (by simp [hk']), ih]
      grind
    · rw [List.filter_cons_of_pos (by simp [hk']), List.lookup_cons, List.lookup_cons, ih]
      grind

/-- Writing is an update. -/
theorem contents?_put (t : FileTree) (k : Place) (bytes : List UInt8) :
    (t.put k bytes).contents? = Function.update t.contents? k (some bytes) := by
  funext k'
  rw [Function.update_apply]
  change List.lookup k' ((k, bytes) :: t.files.filter (·.1 != k)) = _
  rw [List.lookup_cons, lookup_filter]
  by_cases hk' : k' = k
  · simp [hk']
  · rw [beq_eq_false_iff_ne.mpr hk', if_neg hk', if_neg hk']
    rfl

/-- Writing to a path that is writable puts the bytes at its place. -/
theorem write_of_writable {t : FileTree} {path : String} {k : Place}
    (hk : t.writable path = .ok k) (bytes : List UInt8) :
    t.write path bytes = .ok (t.put k bytes) := by
  rw [write, hk]
  rfl

/-- Removing a file leaves none, whether there was one or not. -/
theorem contents?_remove {t : FileTree} {path : String} {k : Place}
    (hk : t.writable path = .ok k) :
    ((t.remove path).toOption.getD t).directories = t.directories ∧
      ((t.remove path).toOption.getD t).contents? = Function.update t.contents? k none := by
  obtain ⟨hlocate, hnames, hdirectory⟩ := writable_eq_ok.mp hk
  have hremove : t.remove path = if (t.contents? k).isNone then .error .notFound
      else .ok { t with files := t.files.filter (·.1 != k) } := by
    rw [remove, hlocate]
    change (if t.isDirectory k = true then _ else _) = _
    rw [hdirectory, if_neg Bool.false_ne_true, hnames]
    rfl
  rw [hremove]
  cases hbytes : t.contents? k with
  | none => exact ⟨rfl, (Function.update_eq_self_iff.mpr hbytes.symm).symm⟩
  | some bytes =>
    refine ⟨rfl, funext fun k' => ?_⟩
    rw [Function.update_apply]
    exact lookup_filter t.files k k'

/-! ## Paths with something appended -/

/-- A path that does not end in a slash ends in a name, and what is appended to the path is
appended to that name. -/
theorem cut_append_path {path : String} (hpath : path ≠ "")
    (hnames : namesDirectory path = false) :
    ∃ pieces name, name ≠ [] ∧ ∀ suffix : List Char, '/' ∉ suffix →
      Text.cut (· == '/') (path.toList ++ suffix) = pieces ++ [name ++ suffix] := by
  have hplain {cs : List Char} (hcs : '/' ∉ cs) : ∀ c ∈ cs, (c == '/') = false := by
    intro c hc
    rw [beq_eq_false_iff_ne]
    rintro rfl
    exact hcs hc
  by_cases hslash : '/' ∈ path.toList.reverse
  · obtain ⟨name, before, hsplit, hname⟩ := List.eq_append_cons_of_mem hslash
    rw [List.reverse_eq_iff, List.reverse_append, List.reverse_cons, List.append_assoc,
      List.singleton_append] at hsplit
    refine ⟨Text.cut (· == '/') before.reverse, name.reverse, ?_, ?_⟩
    · intro hnil
      rw [namesDirectory, hsplit, hnil, List.getLast?_concat] at hnames
      cases hnames
    · intro suffix hsuffix
      have hlast : '/' ∉ name.reverse ++ suffix := by
        rw [List.mem_append, List.mem_reverse, not_or]
        exact ⟨hname, hsuffix⟩
      rw [hsplit, List.append_assoc, List.cons_append, Text.cut_append_separator rfl,
        Text.cut_of_forall (hplain hlast)]
  · rw [List.mem_reverse] at hslash
    refine ⟨[], path.toList, ?_, ?_⟩
    · exact fun hnil => hpath (String.toList_eq_nil_iff.mp hnil)
    · intro suffix hsuffix
      have hlast : '/' ∉ path.toList ++ suffix := by
        rw [List.mem_append, not_or]
        exact ⟨hslash, hsuffix⟩
      rw [Text.cut_of_forall (hplain hlast), List.nil_append]

/-- What is appended to a path is appended to its last name. -/
theorem namesOf_append {path suffix : String} (hpath : path ≠ "")
    (hnames : namesDirectory path = false) (hsuffix : '/' ∉ suffix.toList) :
    ∃ above last, namesOf path = above ++ [last] ∧
      namesOf (path ++ suffix) = above ++ [last ++ suffix] := by
  obtain ⟨pieces, name, hne, hcut⟩ := cut_append_path hpath hnames
  have hpath := hcut [] List.not_mem_nil
  rw [List.append_nil, List.append_nil] at hpath
  refine ⟨(pieces.filter fun piece => !piece.isEmpty).map String.ofList, .ofList name, ?_, ?_⟩
  · simp [namesOf, hpath, hne]
  · simp [namesOf, hcut _ hsuffix, hne]

/-- A path with something appended leads to another name in the same directory. -/
theorem writable_append {t : FileTree} {path suffix : String} {k k' : Place}
    (hsuffix : '/' ∉ suffix.toList) (hk : t.writable path = .ok k)
    (hk' : t.writable (path ++ suffix) = .ok k') :
    ∃ place last, follow place last = .ok k ∧ follow place (last ++ suffix) = .ok k' := by
  obtain ⟨hlocate, hnames, -⟩ := writable_eq_ok.mp hk
  obtain ⟨place, last, happroach, hfollow⟩ := locate_eq_ok.mp hlocate
  obtain ⟨place', last', happroach', hfollow'⟩ := locate_eq_ok.mp (writable_eq_ok.mp hk').1
  obtain ⟨above, name, hpath, hpath'⟩ :=
    namesOf_append (fits_of_approach happroach).nonempty hnames hsuffix
  obtain ⟨rfl, henter⟩ := enter_of_approach happroach hpath
  obtain ⟨rfl, henter'⟩ := enter_of_approach happroach' hpath'
  rw [henter] at henter'
  cases henter'
  exact ⟨place, last, hfollow, hfollow'⟩

/-- A name with something longer than two dots appended is the last name of its place. -/
theorem eq_of_follow {place k : Place} {name suffix : String} (hlength : 2 < suffix.length)
    (hk : follow place (name ++ suffix) = .ok k) : k = place ++ [name ++ suffix] := by
  have hne (other : String) (hother : other.length ≤ 2) : name ++ suffix ≠ other := by
    rintro rfl
    rw [String.length_append] at hother
    omega
  unfold follow at hk
  rw [if_neg (hne "." (by decide)), if_neg (hne ".." (by decide))] at hk
  split at hk
  · cases hk
  · cases hk
    rfl

/-- Paths that lead to one place with the same extension appended lead to one place. -/
theorem writable_append_inj {t : FileTree} {p q suffix : String} {k k' l : Place}
    (hsuffix : '/' ∉ suffix.toList) (hlength : 2 < suffix.length)
    (hp : t.writable p = .ok k) (hq : t.writable q = .ok k')
    (hpl : t.writable (p ++ suffix) = .ok l) (hql : t.writable (q ++ suffix) = .ok l) :
    k = k' := by
  obtain ⟨place, last, hk, hl⟩ := writable_append hsuffix hp hpl
  obtain ⟨place', last', hk', hl'⟩ := writable_append hsuffix hq hql
  have hsame := (eq_of_follow hlength hl).symm.trans (eq_of_follow hlength hl')
  obtain ⟨rfl, hlast⟩ := List.append_inj' hsame rfl
  rw [List.singleton_inj, String.append_left_inj] at hlast
  subst hlast
  rw [hk] at hk'
  cases hk'
  rfl

end StackMachine.FileTree
