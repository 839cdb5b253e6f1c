import PyCtp.FileSystems
import Mathlib.Data.Option.Basic
import Mathlib.Logic.Function.Basic

/-!
# Trees of directories and files

Places with a parent each, at some of them a directory or a file, everything in a directory.
A directory is made one level at a time, a file is created when it is opened for appending,
and both only where the parent is a directory. Paths name places in any way whatever.
-/
namespace PyCtp.DirectoryTrees

inductive Entry (α : Type*)
  | directory
  | file (s : List α)
  deriving DecidableEq, Repr

/-- What there is at each place. -/
structure Tree {π : Type*} (parent : π → π) (α : Type*) where
  entry : π → Option (Entry α)
  inside : ∀ p, (entry p).isSome → entry (parent p) = some .directory

variable {π α : Type*} {parent : π → π}

namespace Tree

def IsDirectory (d : Tree parent α) (p : π) : Prop := d.entry p = some .directory

def IsFile (d : Tree parent α) (p : π) : Prop := ∃ s, d.entry p = some (.file s)

def Free (d : Tree parent α) (p : π) : Prop := d.entry p = none

/-- A directory once one was made at each of the given places in turn, the last one first in
the list, where its place was free and its parent a directory. -/
def Attained (d : Tree parent α) : List π → π → Prop
  | [], q => d.IsDirectory q
  | p :: ps, q => d.Attained ps q ∨ q = p ∧ d.Free p ∧ d.Attained ps (parent p)

theorem cases (d : Tree parent α) (p : π) : d.IsDirectory p ∨ d.IsFile p ∨ d.Free p := by
  rw [IsDirectory, IsFile, Free]
  cases d.entry p with
  | none => exact .inr (.inr rfl)
  | some e =>
    cases e with
    | directory => exact .inl rfl
    | file s => exact .inr (.inl ⟨s, rfl⟩)

theorem IsDirectory.not_free {d : Tree parent α} {p : π} (h : d.IsDirectory p) : ¬d.Free p := by
  rw [Free, h]
  exact Option.some_ne_none _

theorem IsFile.not_isDirectory {d : Tree parent α} {p : π} (h : d.IsFile p) :
    ¬d.IsDirectory p := by
  obtain ⟨s, hs⟩ := h
  rw [IsDirectory, hs]
  simp

theorem IsFile.not_free {d : Tree parent α} {p : π} (h : d.IsFile p) : ¬d.Free p := by
  obtain ⟨s, hs⟩ := h
  rw [Free, hs]
  exact Option.some_ne_none _

theorem isDirectory_parent {d : Tree parent α} {p : π} (h : ¬d.Free p) :
    d.IsDirectory (parent p) := d.inside p (Option.isSome_iff_ne_none.mpr h)

theorem attained_of_ne {d : Tree parent α} {p q r : π} (hp : r ≠ p) (hq : r ≠ q) :
    d.Attained [p, q] r ↔ d.IsDirectory r := by
  simp [Attained, hp, hq]

section Attained
variable {d : Tree parent α} {p q : π}

theorem isDirectory_or_free (h : ¬d.IsFile p) : d.IsDirectory p ∨ d.Free p :=
  (d.cases p).imp_right fun hp => hp.resolve_left h

theorem attained_self (h : ¬d.IsFile p) : d.Attained [p] p ↔ d.IsDirectory (parent p) := by
  constructor
  · rintro (hdir | ⟨-, -, hparent⟩)
    · exact isDirectory_parent hdir.not_free
    · exact hparent
  · intro hparent
    exact (isDirectory_or_free h).imp_right fun hfree => ⟨rfl, hfree, hparent⟩

theorem attained_twice (h : ¬d.IsFile p) : d.Attained [p, p] p ↔ d.IsDirectory (parent p) := by
  rw [Attained, attained_self h]
  refine or_iff_left_of_imp ?_
  rintro ⟨-, -, hparent | ⟨-, -, hparent⟩⟩
  · exact hparent
  · exact hparent

theorem attained_pair {ready : Prop} (hpq : p ≠ q)
    (hparent : d.Attained [q] (parent p) ↔ ready) (hdir : d.IsDirectory p → ready) :
    d.Attained [p, q] p ↔ ready ∧ ¬d.IsFile p := by
  rw [Attained, hparent]
  constructor
  · rintro ((hp | ⟨heq, -⟩) | ⟨-, hfree, hready⟩)
    · exact ⟨hdir hp, fun hfile => hfile.not_isDirectory hp⟩
    · exact absurd heq hpq
    · exact ⟨hready, fun hfile => hfile.not_free hfree⟩
  · rintro ⟨hready, hfile⟩
    rcases isDirectory_or_free hfile with hp | hfree
    · exact .inl (.inl hp)
    · exact .inr ⟨rfl, hfree, hready⟩

theorem attained_child (hpq : p ≠ q) (hparent : parent p = q) (hq : ¬d.IsFile q) :
    d.Attained [p, q] p ↔ d.IsDirectory (parent q) ∧ ¬d.IsFile p := by
  apply attained_pair hpq
  · rw [hparent, attained_self hq]
  · intro hdir
    have hin : d.IsDirectory q := hparent ▸ isDirectory_parent hdir.not_free
    exact isDirectory_parent hin.not_free

theorem attained_sibling (hpq : p ≠ q) (hparent : parent p = parent q) (hq : parent q ≠ q) :
    d.Attained [p, q] p ↔ d.IsDirectory (parent q) ∧ ¬d.IsFile p := by
  apply attained_pair hpq
  · rw [hparent]
    exact or_iff_left fun h => hq h.1
  · intro hdir
    exact hparent ▸ isDirectory_parent hdir.not_free

end Attained

def contents (d : Tree parent α) (p : π) : List α :=
  match d.entry p with
  | some (.file s) => s
  | _ => []

section Calls
variable [DecidableEq π]

def put (d : Tree parent α) (p : π) (e : Entry α) (hdir : d.IsDirectory (parent p))
    (hp : ¬d.IsDirectory p) : Tree parent α where
  entry := Function.update d.entry p (some e)
  inside q hq := by
    have hparent : d.IsDirectory (parent q) := by
      by_cases hqp : q = p
      · exact hqp ▸ hdir
      · exact d.inside q (by rwa [Function.update_of_ne hqp] at hq)
    have hne : parent q ≠ p := fun heq => hp (heq ▸ hparent)
    rwa [Function.update_of_ne hne]

section
variable (d : Tree parent α) (p : π) (e : Entry α) (hdir : d.IsDirectory (parent p))
  (hp : ¬d.IsDirectory p)

@[simp] theorem entry_put_self : (d.put p e hdir hp).entry p = some e := Function.update_self ..

@[simp] theorem entry_put_of_ne {q : π} (hq : q ≠ p) :
    (d.put p e hdir hp).entry q = d.entry q := Function.update_of_ne hq ..

end

variable [DecidableEq α]

instance (d : Tree parent α) (p : π) : Decidable (d.IsDirectory p) :=
  inferInstanceAs (Decidable (_ = _))

instance (d : Tree parent α) (p : π) : Decidable (d.Free p) :=
  inferInstanceAs (Decidable (_ = _))

def mkdir (d : Tree parent α) (p : π) : Tree parent α :=
  if h : d.Free p ∧ d.IsDirectory (parent p) then
    d.put p .directory h.2 fun hdir => hdir.not_free h.1
  else d

def openAppend (d : Tree parent α) (p : π) : Option (Tree parent α) :=
  if d.IsDirectory p then none
  else if d.Free p then
    if h : d.IsDirectory (parent p) ∧ ¬d.IsDirectory p then some (d.put p (.file []) h.1 h.2)
    else none
  else some d

def append (d : Tree parent α) (p : π) (s : List α) : Tree parent α :=
  match h : d.entry p with
  | some (.file t) =>
    have hfile : d.IsFile p := ⟨t, h⟩
    d.put p (.file (t ++ s)) (isDirectory_parent hfile.not_free) hfile.not_isDirectory
  | _ => d

variable {d : Tree parent α} {p q : π}

theorem isDirectory_mkdir :
    (d.mkdir p).IsDirectory q ↔
      d.IsDirectory q ∨ q = p ∧ d.Free p ∧ d.IsDirectory (parent p) := by
  rw [mkdir]
  split
  · rename_i h
    by_cases hq : q = p
    · subst hq
      exact iff_of_true (entry_put_self ..) (.inr ⟨rfl, h⟩)
    · rw [IsDirectory, entry_put_of_ne _ _ _ _ _ hq, or_iff_left fun hm => hq hm.1, IsDirectory]
  · rename_i h
    exact (or_iff_left fun hm => h hm.2).symm

theorem free_mkdir :
    (d.mkdir p).Free q ↔ d.Free q ∧ ¬(q = p ∧ d.Free p ∧ d.IsDirectory (parent p)) := by
  rw [mkdir]
  split
  · rename_i h
    by_cases hq : q = p
    · subst hq
      exact iff_of_false (IsDirectory.not_free (entry_put_self ..)) fun hf => hf.2 ⟨rfl, h⟩
    · rw [Free, entry_put_of_ne _ _ _ _ _ hq, and_iff_left fun hm => hq hm.1, Free]
  · rename_i h
    exact (and_iff_left fun hm => h hm.2).symm

theorem contents_mkdir : (d.mkdir p).contents q = d.contents q := by
  rw [mkdir]
  split
  · rename_i h
    by_cases hq : q = p
    · subst hq
      have hfree : d.entry q = none := h.1
      rw [contents, contents, entry_put_self, hfree]
    · rw [contents, entry_put_of_ne _ _ _ _ _ hq, contents]
  · rfl

theorem openAppend_isSome :
    (d.openAppend p).isSome ↔ d.IsDirectory (parent p) ∧ ¬d.IsDirectory p := by
  rw [openAppend]
  split
  · rename_i h
    simp [h]
  · rename_i h
    split
    · split
      · rename_i hput
        simpa using hput
      · rename_i hput
        simpa using hput
    · rename_i hfree
      simp [h, isDirectory_parent hfree]

omit [DecidableEq α] in
theorem contents_append (h : d.IsFile p) (s : List α) :
    (d.append p s).contents p = d.contents p ++ s := by
  obtain ⟨t, ht⟩ := h
  rw [append]
  split
  · rename_i u hu
    rw [contents, entry_put_self, contents, hu]
  · rename_i hno
    exact absurd ht (hno t)

theorem openAppend_eq_some {d' : Tree parent α} (h : d.openAppend p = some d') :
    d'.IsFile p ∧ d'.contents p = d.contents p := by
  rw [openAppend] at h
  split at h
  · cases h
  · rename_i hdir
    split at h
    · rename_i hfree
      have hnone : d.entry p = none := hfree
      split at h
      · obtain rfl := Option.some.inj h
        refine ⟨⟨[], entry_put_self ..⟩, ?_⟩
        rw [contents, entry_put_self, contents, hnone]
      · cases h
    · rename_i hfree
      obtain rfl := Option.some.inj h
      exact ⟨(d.cases p).resolve_left hdir |>.resolve_right hfree, rfl⟩

end Calls

end Tree

section Paths
variable [DecidableEq π] [DecidableEq α] {τ : Type*}

/-- The calls of a program whose paths name places, with the bytes that a text takes. -/
def fileSystem (parent : π → π) (α : Type*) [DecidableEq α] (place : τ → π)
    (bytes : List α → ℕ) : FileSystem (Tree parent α) τ α where
  access d s := (d.entry (place s)).isSome
  mkdir d s := d.mkdir (place s)
  openAppend d s := d.openAppend (place s)
  contents d s := d.contents (place s)
  size d s := bytes (d.contents (place s))
  append d s t := d.append (place s) t
  bytes := bytes

section
variable (place : τ → π) (bytes : List α → ℕ) (d : Tree parent α) (s : τ) (q : π)

theorem isDirectory_ensure :
    ((fileSystem parent α place bytes).ensure d s).IsDirectory q ↔
      d.IsDirectory q ∨ q = place s ∧ d.Free (place s) ∧ d.IsDirectory (parent (place s)) := by
  rw [FileSystem.ensure]
  split
  · rename_i h
    have hthere : ¬d.Free (place s) := Option.isSome_iff_ne_none.mp h
    exact (or_iff_left fun hm => hthere hm.2.1).symm
  · exact Tree.isDirectory_mkdir

theorem free_ensure :
    ((fileSystem parent α place bytes).ensure d s).Free q ↔
      d.Free q ∧
        ¬(q = place s ∧ d.Free (place s) ∧ d.IsDirectory (parent (place s))) := by
  rw [FileSystem.ensure]
  split
  · rename_i h
    have hthere : ¬d.Free (place s) := Option.isSome_iff_ne_none.mp h
    exact (and_iff_left fun hm => hthere hm.2.1).symm
  · exact Tree.free_mkdir

theorem contents_ensure (t : τ) :
    (fileSystem parent α place bytes).contents ((fileSystem parent α place bytes).ensure d s) t =
      (fileSystem parent α place bytes).contents d t := by
  rw [FileSystem.ensure]
  split
  · rfl
  · exact Tree.contents_mkdir

end

/-- Ensure the directories of the given paths, from the last one in the list on. -/
def ensureAll (place : τ → π) (bytes : List α → ℕ) (ss : List τ) (d : Tree parent α) :
    Tree parent α :=
  match ss with
  | [] => d
  | s :: ss => (fileSystem parent α place bytes).ensure (ensureAll place bytes ss d) s

variable (place : τ → π) (bytes : List α → ℕ) (d : Tree parent α)

theorem ensureAll_places (ss : List τ) (q : π) :
    ((ensureAll place bytes ss d).IsDirectory q ↔ d.Attained (ss.map place) q) ∧
      ((ensureAll place bytes ss d).Free q ↔ d.Free q ∧ ¬d.Attained (ss.map place) q) := by
  induction ss generalizing q with
  | nil =>
    refine ⟨Iff.rfl, (and_iff_left_of_imp fun hfree hdir => ?_).symm⟩
    exact Tree.IsDirectory.not_free hdir hfree
  | cons s ss ih =>
    obtain ⟨hq, hqfree⟩ := ih q
    obtain ⟨hs, hsfree⟩ := ih (place s)
    have hparent := (ih (parent (place s))).1
    have hdir := isDirectory_ensure place bytes (ensureAll place bytes ss d) s q
    have hfree := free_ensure place bytes (ensureAll place bytes ss d) s q
    rw [hq, hsfree, hparent] at hdir
    rw [hqfree, hsfree, hparent] at hfree
    rw [List.map_cons, Tree.Attained]
    refine ⟨hdir.trans ?_, hfree.trans ?_⟩
    · by_cases hatt : d.Attained (ss.map place) (place s)
      · simp only [hatt, not_true_eq_false, and_false, false_and, or_false]
        exact (or_iff_left_of_imp fun hm => hm.1 ▸ hatt).symm
      · simp only [hatt, not_false_eq_true, and_true]
    · by_cases hatt : d.Attained (ss.map place) (place s)
      · simp only [hatt, not_true_eq_false, and_false, false_and, not_false_eq_true, and_true]
        refine and_congr_right fun _ => not_congr (or_iff_left_of_imp fun hm => ?_).symm
        exact hm.1 ▸ hatt
      · simp only [hatt, not_false_eq_true, and_true, not_or, and_assoc]

theorem contents_ensureAll (ss : List τ) (t : τ) :
    (fileSystem parent α place bytes).contents (ensureAll place bytes ss d) t =
      (fileSystem parent α place bytes).contents d t := by
  induction ss with
  | nil => rfl
  | cons s ss ih => exact (contents_ensure place bytes _ s t).trans ih

end Paths

end PyCtp.DirectoryTrees
