import Mathlib.Data.List.Sort
import Mathlib.Order.Basic
import Mathlib.Tactic.Common

/-!
# Finite maps as strictly sorted entry lists

The abstract content of an ordered map: its entries in key order, each key once.
The order is part of the type, so iterating over the entries needs no side
condition and two maps with the same lookups are equal.
-/
namespace PyCtp

structure SortedMap (κ β : Type*) [LinearOrder κ] where
  entries : List (κ × β)
  sorted : entries.Pairwise (fun a b => a.1 < b.1)

namespace SortedMap
variable {κ β : Type*} [LinearOrder κ]

instance [DecidableEq β] : DecidableEq (SortedMap κ β) := fun m n =>
  decidable_of_iff (m.entries = n.entries) ⟨fun h => by cases m; cases n; cases h; rfl,
    fun h => h ▸ rfl⟩

@[ext] theorem ext {m n : SortedMap κ β} (h : m.entries = n.entries) : m = n := by
  cases m; cases n; cases h; rfl

def empty : SortedMap κ β := ⟨[], List.Pairwise.nil⟩

def lookupEntries (j : κ) : List (κ × β) → Option β
  | [] => none
  | e :: es => if j = e.1 then some e.2 else lookupEntries j es

def lookup (m : SortedMap κ β) (j : κ) : Option β := lookupEntries j m.entries

def insertEntries (k : κ) (v : β) : List (κ × β) → List (κ × β)
  | [] => [(k, v)]
  | e :: es =>
    if k < e.1 then (k, v) :: e :: es
    else if k = e.1 then (k, v) :: es
    else e :: insertEntries k v es

theorem mem_insertEntries {k : κ} {v : β} {e : κ × β} {es : List (κ × β)}
    (h : e ∈ insertEntries k v es) : e = (k, v) ∨ e ∈ es := by
  induction es with
  | nil => exact Or.inl (by simpa [insertEntries] using h)
  | cons d es ih =>
    rw [insertEntries] at h
    split_ifs at h
    · exact List.mem_cons.mp h
    · exact (List.mem_cons.mp h).imp_right (List.mem_cons_of_mem _)
    · rcases List.mem_cons.mp h with rfl | h
      · exact Or.inr List.mem_cons_self
      · exact (ih h).imp_right (List.mem_cons_of_mem _)

theorem insertEntries_sorted (k : κ) (v : β) {es : List (κ × β)}
    (h : es.Pairwise (fun a b => a.1 < b.1)) :
    (insertEntries k v es).Pairwise (fun a b => a.1 < b.1) := by
  induction es with
  | nil => simp [insertEntries]
  | cons d es ih =>
    obtain ⟨hd, hes⟩ := List.pairwise_cons.mp h
    rw [insertEntries]
    split_ifs with hlt heq
    · refine List.pairwise_cons.mpr ⟨fun e he => ?_, h⟩
      rcases List.mem_cons.mp he with rfl | he
      · exact hlt
      · exact hlt.trans (hd e he)
    · exact List.pairwise_cons.mpr ⟨fun e he => heq ▸ hd e he, hes⟩
    · refine List.pairwise_cons.mpr ⟨fun e he => ?_, ih hes⟩
      rcases mem_insertEntries he with rfl | he
      · exact lt_of_le_of_ne (not_lt.mp hlt) (Ne.symm heq)
      · exact hd e he

/-- Assignment through `operator[]`: the last value stored under a key wins. -/
def insert (m : SortedMap κ β) (k : κ) (v : β) : SortedMap κ β :=
  ⟨insertEntries k v m.entries, insertEntries_sorted k v m.sorted⟩

theorem lookup_insertEntries (k : κ) (v : β) (es : List (κ × β)) (j : κ) :
    lookupEntries j (insertEntries k v es) =
      if j = k then some v else lookupEntries j es := by
  induction es with
  | nil => rfl
  | cons d es ih =>
    rw [insertEntries]
    by_cases hlt : k < d.1
    · simp only [if_pos hlt, lookupEntries]
    · by_cases heq : k = d.1
      · subst heq
        by_cases hj : j = d.1 <;> simp [lookupEntries, hj]
      · by_cases hj : j = d.1
        · simp [hlt, heq, lookupEntries, hj, Ne.symm heq]
        · simp [hlt, heq, lookupEntries, hj, ih]

@[simp] theorem lookup_insert (m : SortedMap κ β) (k : κ) (v : β) (j : κ) :
    (m.insert k v).lookup j = if j = k then some v else m.lookup j :=
  lookup_insertEntries k v m.entries j

@[simp] theorem lookup_empty (j : κ) : (empty : SortedMap κ β).lookup j = none := rfl

theorem insertEntries_of_lt {k : κ} (v : β) {es : List (κ × β)}
    (h : ∀ e ∈ es, e.1 < k) : insertEntries k v es = es ++ [(k, v)] := by
  induction es with
  | nil => rfl
  | cons d es ih =>
    have hd := h d (by simp)
    rw [insertEntries, if_neg hd.asymm, if_neg hd.ne', ih fun e he => h e (by simp [he])]
    rfl

def insertAll (m : SortedMap κ β) (es : List (κ × β)) : SortedMap κ β :=
  es.foldl (fun m e => m.insert e.1 e.2) m

@[simp] theorem insertAll_nil (m : SortedMap κ β) : m.insertAll [] = m := rfl

@[simp] theorem insertAll_cons (m : SortedMap κ β) (e : κ × β) (es : List (κ × β)) :
    m.insertAll (e :: es) = (m.insert e.1 e.2).insertAll es := rfl

theorem lookup_insertAll (m : SortedMap κ β) (es : List (κ × β)) (j : κ) :
    (m.insertAll es).lookup j =
      ((es.reverse.find? fun e => e.1 = j).map (·.2)).or (m.lookup j) := by
  induction es generalizing m with
  | nil => rfl
  | cons e es ih =>
    rw [insertAll_cons, ih, lookup_insert, List.reverse_cons, List.find?_append]
    cases es.reverse.find? fun e => decide (e.1 = j) with
    | some d => rfl
    | none =>
      by_cases he : j = e.1
      · simp [he]
      · simp [he, Ne.symm he]

theorem insertAll_entries (m : SortedMap κ β) {es : List (κ × β)}
    (h : (m.entries ++ es).Pairwise (fun a b => a.1 < b.1)) :
    (m.insertAll es).entries = m.entries ++ es := by
  induction es generalizing m with
  | nil => simp
  | cons e es ih =>
    have hlt : ∀ d ∈ m.entries, d.1 < e.1 := fun d hd =>
      (List.pairwise_append.mp h).2.2 d hd e (by simp)
    have he : (m.insert e.1 e.2).entries = m.entries ++ [e] := insertEntries_of_lt e.2 hlt
    rw [insertAll_cons, ih _ (by simpa [he] using h), he, List.append_assoc, List.singleton_append]

/-- A map is rebuilt by inserting its own entries into the empty map. -/
theorem insertAll_empty (m : SortedMap κ β) : empty.insertAll m.entries = m :=
  ext (insertAll_entries empty m.sorted)

theorem mem_insert {m : SortedMap κ β} {k : κ} {v : β} {e : κ × β}
    (h : e ∈ (m.insert k v).entries) : e = (k, v) ∨ e ∈ m.entries :=
  mem_insertEntries h

end SortedMap
end PyCtp
