import PyCtp.InputStreams

/-!
# Paths with slashes

A path is read from its start or, unless it begins with a slash, from the working directory:
empty names and `.` stay where they are, `..` goes up, every other name goes down. A place is
the list of names that leads to it, the last one first.
-/
namespace PyCtp.SlashPaths

/-- A name that goes down. -/
def Proper (name : List Char) : Prop :=
  name ≠ [] ∧ name ≠ ".".toList ∧ name ≠ "..".toList

def enter (base : List (List Char)) (name : List Char) : List (List Char) :=
  if name = [] ∨ name = ".".toList then base
  else if name = "..".toList then base.tail
  else name :: base

def start (cwd : List (List Char)) (path : List Char) : List (List Char) :=
  if path.head? = some '/' then [] else cwd

def place (cwd : List (List Char)) (path : List Char) : List (List Char) :=
  (path.splitOn '/').foldl enter (start cwd path)

variable {cwd base : List (List Char)} {name : List Char}

theorem enter_nil : enter base [] = base := if_pos (.inl rfl)

theorem enter_proper (h : Proper name) : enter base name = name :: base := by
  rw [enter, if_neg (not_or.mpr ⟨h.1, h.2.1⟩), if_neg h.2.2]

theorem start_append {p : List Char} (hp : p ≠ []) (s : List Char) :
    start cwd (p ++ s) = start cwd p := by
  rw [start, start, List.head?_append_of_ne_nil _ hp]

theorem place_slash_name {p : List Char} (hp : p ≠ []) (hname : '/' ∉ name) :
    place cwd (p ++ '/' :: name) = enter (place cwd p) name := by
  obtain ⟨ls, r, rfl, hls, hr⟩ := exists_terminated_append '/' p
  have happ : terminated '/' ls ++ r ++ '/' :: name = terminated '/' (ls ++ [r]) ++ name := by
    simp [terminated_append]
  have hall : ∀ l ∈ ls ++ [r], '/' ∉ l := List.forall_mem_append.mpr ⟨hls, by simpa using hr⟩
  rw [place, start_append hp, happ, splitOn_terminated_append hall hname, List.foldl_concat, place,
    splitOn_terminated_append hls hr]

theorem exists_last (cwd : List (List Char)) (p : List Char) :
    ∃ base last, '/' ∉ last ∧ last <:+ p ∧
      ∀ s, '/' ∉ s → place cwd (p ++ s) = enter base (last ++ s) := by
  obtain ⟨ls, r, rfl, hls, hr⟩ := exists_terminated_append '/' p
  refine ⟨ls.foldl enter (start cwd (terminated '/' ls)), r, hr, ⟨_, rfl⟩, fun s hs => ?_⟩
  have hrs : '/' ∉ r ++ s := fun hm => (List.mem_append.mp hm).elim hr hs
  rw [place, List.append_assoc, splitOn_terminated_append hls hrs, List.foldl_concat]
  congr 2
  cases ls with
  | nil =>
    have hhead : (r ++ s).head? ≠ some '/' := by
      intro h
      exact hrs (List.mem_of_mem_head? h)
    rw [start, terminated_nil, List.nil_append, if_neg hhead]
    rfl
  | cons l ls => exact start_append (by simp) _

end PyCtp.SlashPaths
