import Mathlib.Tactic.Common

/-!
# File systems seen through a few calls

What a program can do to a disk when all it uses is a test for existence, the creation of
a directory and appending to files, over arbitrary paths and characters. A file has contents,
which are its text, and a size, which counts the bytes of this text on the disk. The calls are
parameters, and `Reliable` says that they succeed and touch nothing else.
-/
namespace PyCtp

structure FileSystem (D π α : Type*) where
  /-- Does the path exist? -/
  access : D → π → Bool
  mkdir : D → π → D
  /-- Open for appending, at the end; the file is created if it is not there. -/
  openAppend : D → π → Option D
  /-- What a file holds; nothing if it is not there. -/
  contents : D → π → List α
  /-- Its size in bytes. -/
  size : D → π → ℕ
  append : D → π → List α → D
  /-- The bytes that a text takes when it is appended. -/
  bytes : List α → ℕ

namespace FileSystem
variable {D π α : Type*}

/-- The contents of a file and their size. -/
def file (fs : FileSystem D π α) (d : D) (p : π) : List α × ℕ := (fs.contents d p, fs.size d p)

/-- Directories are created and files opened without failure, each call changes only what it
names, and only an empty file has size zero. -/
structure Reliable (fs : FileSystem D π α) : Prop where
  openAppend : ∀ d p, ∃ d', fs.openAppend d p = some d' ∧ ∀ q, fs.file d' q = fs.file d q
  mkdir : ∀ d p q, fs.file (fs.mkdir d p) q = fs.file d q
  append : ∀ d p s, fs.file (fs.append d p s) p =
    (fs.contents d p ++ s, fs.size d p + fs.bytes s)
  append_other : ∀ d p s q, q ≠ p → fs.file (fs.append d p s) q = fs.file d q
  empty : ∀ d p, fs.size d p = 0 ↔ fs.contents d p = []

/-- Create a directory unless its path exists. -/
def ensure (fs : FileSystem D π α) (d : D) (p : π) : D :=
  if fs.access d p then d else fs.mkdir d p

theorem Reliable.ensure {fs : FileSystem D π α} (h : fs.Reliable) (d : D) (p q : π) :
    fs.file (fs.ensure d p) q = fs.file d q := by
  rw [FileSystem.ensure]
  split
  · rfl
  · exact h.mkdir d p q

/-- A disk of files alone, on which everything succeeds. -/
def flat [DecidableEq π] (bytes : List α → ℕ) : FileSystem (π → List α) π α where
  access _ _ := true
  mkdir d _ := d
  openAppend d _ := some d
  contents d p := d p
  size d p := bytes (d p)
  append d p s := fun q => if q = p then d p ++ s else d q
  bytes := bytes

theorem flat_reliable [DecidableEq π] {bytes : List α → ℕ}
    (happend : ∀ s t, bytes (s ++ t) = bytes s + bytes t) (hempty : ∀ s, bytes s = 0 ↔ s = []) :
    (flat bytes : FileSystem (π → List α) π α).Reliable where
  openAppend d _ := ⟨d, rfl, fun _ => rfl⟩
  mkdir _ _ _ := rfl
  append d p s := by simp [flat, file, happend]
  append_other d p s q h := by simp [flat, file, h]
  empty d p := hempty (d p)

end FileSystem
end PyCtp
