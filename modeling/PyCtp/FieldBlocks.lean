import Mathlib.Data.List.Nodup
import Mathlib.Tactic.Common

/-!
# Strings copied into the fields of a block

A block of memory with fields of fixed capacity, filled by copies that stop at the end of
the string and not at the end of the field. Copying is compared with placing every string
in its own field only.
-/
namespace PyCtp.FieldBlocks

variable {α κ : Type*}

def write (m : ℕ → α) (a : ℕ) (bytes : List α) : ℕ → α := fun i =>
  if a ≤ i then (bytes[i - a]?).getD (m i) else m i

/-- Where the fields of a block lie. -/
structure Layout (κ : Type*) where
  size : ℕ
  offset : κ → ℕ
  capacity : κ → ℕ
  inside : ∀ k, offset k + capacity k ≤ size
  disjoint : ∀ j k, j ≠ k →
    offset j + capacity j ≤ offset k ∨ offset k + capacity k ≤ offset j

def Layout.Within (L : Layout κ) (k : κ) (a : ℕ) : Prop :=
  L.offset k ≤ a ∧ a < L.offset k + L.capacity k

instance (L : Layout κ) (k : κ) (a : ℕ) : Decidable (L.Within k a) :=
  inferInstanceAs (Decidable (_ ∧ _))

def Layout.field (L : Layout κ) (m : ℕ → α) (k : κ) : List α :=
  (List.range (L.capacity k)).map fun i => m (L.offset k + i)

theorem Layout.Within.unique {L : Layout κ} {j k : κ} {a : ℕ} (hj : L.Within j a)
    (hk : L.Within k a) : j = k := by
  by_contra hne
  obtain ⟨hj, hj'⟩ := hj
  obtain ⟨hk, hk'⟩ := hk
  rcases L.disjoint j k hne with h | h <;> omega

section Copies
variable (L : Layout κ) (z : α) (text : κ → Option (List α))

/-- Copy the string of a field, if there is one, with a terminator. -/
def copy (m : ℕ → α) (k : κ) : ℕ → α :=
  match text k with
  | none => m
  | some s => write m (L.offset k) (s ++ [z])

/-- The same, cut off at the end of the field. -/
def place (m : ℕ → α) (k : κ) : ℕ → α := fun a =>
  if L.Within k a then copy L z text m k a else m a

def OwnField (m : ℕ → α) (k : κ) : Prop :=
  ∀ a, copy L z text m k a ≠ m a → L.Within k a

/-- Every copy in turn changes only bytes of its own field. -/
def OwnFields : (ℕ → α) → List κ → Prop
  | _, [] => True
  | m, k :: ks => OwnField L z text m k ∧ OwnFields (copy L z text m k) ks

/-- The bytes past the end of the field, terminator included, are already there. -/
def NoSpill (m : ℕ → α) (k : κ) : Prop :=
  ∀ s, text k = some s → ∀ i, L.capacity k ≤ i → ∀ c, (s ++ [z])[i]? = some c →
    m (L.offset k + i) = c

/-- So it is for every string in turn, with the earlier ones in their own fields. -/
def NoSpills : (ℕ → α) → List κ → Prop
  | _, [] => True
  | m, k :: ks => NoSpill L z text m k ∧ NoSpills (place L z text m k) ks

/-- Each copy keeps to its field, and in the end a string that fits stands alone in its field
and a field without a string is empty. -/
structure Exact (m : ℕ → α) (ks : List κ) : Prop where
  ownFields : OwnFields L z text m ks
  fitting : ∀ k ∈ ks, ∀ s, text k = some s → s.length < L.capacity k →
    L.field (ks.foldl (copy L z text) m) k = s ++ List.replicate (L.capacity k - s.length) z
  missing : ∀ k ∈ ks, text k = none →
    L.field (ks.foldl (copy L z text) m) k = List.replicate (L.capacity k) z

variable {L z text} {m : ℕ → α} {k : κ}

theorem copy_of_some {s : List α} (h : text k = some s) (a : ℕ) :
    copy L z text m k a =
      if L.offset k ≤ a then ((s ++ [z])[a - L.offset k]?).getD (m a) else m a := by
  rw [copy, h]
  rfl

theorem copy_of_none (h : text k = none) : copy L z text m k = m := by rw [copy, h]

theorem ownField_iff_noSpill : OwnField L z text m k ↔ NoSpill L z text m k := by
  constructor
  · intro hown s hs i hi c hc
    have hcopy : copy L z text m k (L.offset k + i) = c := by
      rw [copy_of_some hs, if_pos (Nat.le_add_right _ _), Nat.add_sub_cancel_left, hc]
      rfl
    by_contra hne
    have hin := hown (L.offset k + i) (fun heq => hne (heq.symm.trans hcopy))
    have hlt := hin.2
    omega
  · intro hspill a ha
    cases hs : text k with
    | none =>
      rw [copy_of_none hs] at ha
      exact absurd rfl ha
    | some s =>
      rw [copy_of_some hs] at ha
      by_cases hle : L.offset k ≤ a
      · refine ⟨hle, ?_⟩
        by_contra hend
        rw [if_pos hle] at ha
        cases hc : (s ++ [z])[a - L.offset k]? with
        | none =>
          rw [hc] at ha
          exact ha rfl
        | some c =>
          have hthere := hspill s hs (a - L.offset k) (by omega) c hc
          rw [Nat.add_sub_cancel' hle] at hthere
          rw [hc] at ha
          exact ha hthere.symm
      · rw [if_neg hle] at ha
        exact absurd rfl ha

theorem copy_eq_place (h : NoSpill L z text m k) : copy L z text m k = place L z text m k := by
  funext a
  rw [place]
  split
  · rfl
  · rename_i ha
    by_contra hne
    exact ha (ownField_iff_noSpill.mpr h a hne)

theorem ownFields_iff_noSpills (m : ℕ → α) (ks : List κ) :
    OwnFields L z text m ks ↔ NoSpills L z text m ks := by
  induction ks generalizing m with
  | nil => exact Iff.rfl
  | cons k ks ih =>
    rw [OwnFields, NoSpills, ownField_iff_noSpill]
    refine and_congr_right fun h => ?_
    rw [copy_eq_place h]
    exact ih _

theorem foldl_copy_eq (ks : List κ) (h : NoSpills L z text m ks) :
    ks.foldl (copy L z text) m = ks.foldl (place L z text) m := by
  induction ks generalizing m with
  | nil => rfl
  | cons k ks ih =>
    rw [List.foldl_cons, List.foldl_cons, copy_eq_place h.1]
    exact ih h.2

theorem place_other {j : κ} (hne : j ≠ k) {a : ℕ} (ha : L.Within k a) :
    place L z text m j a = m a := if_neg fun hj => hne (hj.unique ha)

theorem foldl_place_of_not_mem {ks : List κ} (hk : k ∉ ks) {a : ℕ} (ha : L.Within k a) :
    ks.foldl (place L z text) m a = m a := by
  induction ks generalizing m with
  | nil => rfl
  | cons j js ih =>
    obtain ⟨hj, hjs⟩ := not_or.mp (fun hm => hk (List.mem_cons.mpr hm))
    rw [List.foldl_cons, ih hjs, place_other (Ne.symm hj) ha]

theorem foldl_place_of_mem {ks : List κ} (hnd : ks.Nodup) (hk : k ∈ ks) {a : ℕ}
    (ha : L.Within k a) : ks.foldl (place L z text) m a = copy L z text m k a := by
  induction ks generalizing m with
  | nil => cases hk
  | cons j js ih =>
    obtain ⟨hj, hnd⟩ := List.nodup_cons.mp hnd
    rw [List.foldl_cons]
    by_cases hkj : k = j
    · subst hkj
      rw [foldl_place_of_not_mem hj ha, place, if_pos ha]
    · have hsame : place L z text m j a = m a := place_other (Ne.symm hkj) ha
      rw [ih hnd ((List.mem_cons.mp hk).resolve_left hkj)]
      cases hs : text k with
      | none => rw [copy_of_none hs, copy_of_none hs, hsame]
      | some s => rw [copy_of_some hs, copy_of_some hs, hsame]

variable {ks : List κ}

theorem field_of_fitting (hm : ∀ a, L.Within k a → m a = z) {s : List α} (hs : text k = some s)
    (hfit : s.length < L.capacity k) {m' : ℕ → α}
    (hm' : ∀ a, L.Within k a → m' a = copy L z text m k a) :
    L.field m' k = s ++ List.replicate (L.capacity k - s.length) z := by
  refine List.ext_getElem ?_ fun i hi hi' => ?_
  · rw [Layout.field, List.length_map, List.length_range, List.length_append,
      List.length_replicate]
    omega
  · have hcap : i < L.capacity k := by simpa [Layout.field] using hi
    have ha : L.Within k (L.offset k + i) :=
      ⟨Nat.le_add_right _ _, Nat.add_lt_add_left hcap _⟩
    have hvalue := hm' _ ha
    rw [copy_of_some hs, if_pos (Nat.le_add_right _ _), Nat.add_sub_cancel_left, hm _ ha]
      at hvalue
    have hbyte : (L.field m' k)[i] = m' (L.offset k + i) := by simp [Layout.field]
    rw [hbyte, hvalue]
    rcases Nat.lt_or_ge i s.length with hlt | hge
    · rw [List.getElem?_append_left hlt, List.getElem_append_left hlt,
        List.getElem?_eq_getElem hlt]
      rfl
    · rw [List.getElem?_append_right hge, List.getElem_append_right hge, List.getElem_replicate]
      cases i - s.length <;> rfl

theorem field_of_missing (hm : ∀ a, L.Within k a → m a = z) (hs : text k = none) {m' : ℕ → α}
    (hm' : ∀ a, L.Within k a → m' a = copy L z text m k a) :
    L.field m' k = List.replicate (L.capacity k) z := by
  refine List.eq_replicate_iff.mpr ⟨by simp [Layout.field], fun c hc => ?_⟩
  obtain ⟨i, hi, rfl⟩ := List.mem_map.mp hc
  have ha : L.Within k (L.offset k + i) :=
    ⟨Nat.le_add_right _ _, Nat.add_lt_add_left (List.mem_range.mp hi) _⟩
  rw [hm' _ ha, copy_of_none hs, hm _ ha]

/-- Copies into a zeroed block are exact if and only if no string spills. -/
theorem exact_iff_noSpills (hnd : ks.Nodup) (hm : ∀ k ∈ ks, ∀ a, L.Within k a → m a = z) :
    Exact L z text m ks ↔ NoSpills L z text m ks := by
  constructor
  · intro h
    exact (ownFields_iff_noSpills m ks).mp h.ownFields
  · intro h
    have hplaced : ∀ k ∈ ks, ∀ a, L.Within k a →
        ks.foldl (copy L z text) m a = copy L z text m k a := by
      intro k hk a ha
      rw [foldl_copy_eq ks h, foldl_place_of_mem hnd hk ha]
    exact {
      ownFields := (ownFields_iff_noSpills m ks).mpr h
      fitting := fun k hk s hs hfit => field_of_fitting (hm k hk) hs hfit (hplaced k hk)
      missing := fun k hk hs => field_of_missing (hm k hk) hs (hplaced k hk) }

theorem noSpills_of_fitting (h : ∀ k ∈ ks, ∀ s, text k = some s → s.length < L.capacity k) :
    NoSpills L z text m ks := by
  induction ks generalizing m with
  | nil => trivial
  | cons k ks ih =>
    obtain ⟨hk, hks⟩ := List.forall_mem_cons.mp h
    refine ⟨fun s hs i hi c hc => ?_, ih hks⟩
    have hlt : i < (s ++ [z]).length := (List.getElem?_eq_some_iff.mp hc).1
    have hfit := hk s hs
    rw [List.length_append, List.length_singleton] at hlt
    omega

end Copies

end PyCtp.FieldBlocks
