import Mathlib.Data.List.DropRight
import Mathlib.Data.List.Infix
import Mathlib.Tactic.Common

/-!
# Searching, cutting, trimming and splitting sequences

The operations a line-oriented reader performs on its text, over an arbitrary
alphabet: first occurrence of a needle, the part before it, removal of blanks at
both ends, and the segments between separators.
-/
namespace PyCtp.TextScanning

variable {α : Type*}

section Find
variable [DecidableEq α]

/-- Position of the first occurrence of `needle`; the empty needle is found at 0. -/
def find (needle : List α) : List α → Option ℕ
  | [] => if needle = [] then some 0 else none
  | c :: s => if needle <+: c :: s then some 0 else (find needle s).map (· + 1)

/-- The part of a sequence before the first occurrence of `needle`, or all of it. -/
def cut (needle s : List α) : List α :=
  match find needle s with
  | none => s
  | some p => s.take p

theorem cut_isPrefix (needle s : List α) : cut needle s <+: s := by
  rw [cut]
  cases find needle s with
  | none => exact List.prefix_rfl
  | some p => exact List.take_prefix p s

theorem mem_of_mem_cut {needle s : List α} {c : α} (h : c ∈ cut needle s) : c ∈ s :=
  (cut_isPrefix needle s).subset h

@[simp] theorem cut_nil (needle : List α) : cut needle [] = [] :=
  List.prefix_nil.mp (cut_isPrefix needle [])

theorem find_take_eq_none {needle s : List α} (hne : needle ≠ []) {p : ℕ}
    (h : find needle s = some p) : find needle (s.take p) = none := by
  induction s generalizing p with
  | nil => simp [find, hne] at h
  | cons c s ih =>
    by_cases hp : needle <+: c :: s
    · obtain rfl : 0 = p := by simpa [find, hp] using h
      simp [find, hne]
    · obtain ⟨q, hq, rfl⟩ : ∃ q, find needle s = some q ∧ q + 1 = p := by
        simpa [find, hp] using h
      have hd : ¬needle <+: c :: s.take q := fun hn =>
        hp (hn.trans (List.take_prefix (q + 1) (c :: s)))
      simp [find, hd, ih hq]

theorem find_cut {needle : List α} (hne : needle ≠ []) (s : List α) :
    find needle (cut needle s) = none := by
  cases h : find needle s with
  | none => simp [cut, h]
  | some p => simpa [cut, h] using find_take_eq_none hne h

theorem cut_of_find_none {needle s : List α} (h : find needle s = none) :
    cut needle s = s := by simp [cut, h]

@[simp] theorem cut_cut (needle s : List α) : cut needle (cut needle s) = cut needle s := by
  by_cases hne : needle = []
  · subst hne
    have hnil : ∀ t : List α, cut [] t = [] := by
      intro t
      cases t <;> simp [cut, find]
    simp [hnil]
  · exact cut_of_find_none (find_cut hne s)

theorem find_singleton_eq_none_iff {c : α} {s : List α} : find [c] s = none ↔ c ∉ s := by
  induction s with
  | nil => simp [find]
  | cons d s ih =>
    by_cases h : c = d
    · simp [find, h]
    · simp [find, h, ih]

theorem find_singleton_append {c : α} {a : List α} (h : c ∉ a) (b : List α) :
    find [c] (a ++ c :: b) = some a.length := by
  induction a with
  | nil => simp [find]
  | cons d a ih =>
    obtain ⟨hd, ha⟩ := not_or.mp (fun hm => h (List.mem_cons.mpr hm))
    simp [find, hd, ih ha]

theorem not_mem_take_of_find {c : α} {s : List α} {p : ℕ} (h : find [c] s = some p) :
    c ∉ s.take p :=
  find_singleton_eq_none_iff.mp (find_take_eq_none (by simp) h)

theorem not_mem_cut_singleton (c : α) (s : List α) : c ∉ cut [c] s :=
  find_singleton_eq_none_iff.mp (find_cut (by simp) s)

theorem cut_singleton_of_not_mem {c : α} {s : List α} (h : c ∉ s) : cut [c] s = s :=
  cut_of_find_none (find_singleton_eq_none_iff.mpr h)

theorem cut_singleton_append {c : α} {a : List α} (h : c ∉ a) (b : List α) :
    cut [c] (a ++ c :: b) = a := by
  simp [cut, find_singleton_append h]

theorem cut_singleton_eq_takeWhile (c : α) (s : List α) : cut [c] s = s.takeWhile (· ≠ c) := by
  by_cases h : c ∈ s
  · obtain ⟨a, b, rfl, ha⟩ := List.eq_append_cons_of_mem h
    have hpos : ∀ d ∈ a, decide (d ≠ c) = true := by
      intro d hd
      simpa using fun he : d = c => ha (he ▸ hd)
    rw [cut_singleton_append ha, List.takeWhile_append_of_pos hpos,
      List.takeWhile_cons_of_neg (by simp), List.append_nil]
  · rw [cut_singleton_of_not_mem h, eq_comm, List.takeWhile_eq_self_iff]
    intro d hd
    simpa using fun he : d = c => h (he ▸ hd)

theorem find_singleton_of_mem {c : α} {s : List α} (h : c ∈ s) :
    ∃ p, find [c] s = some p ∧ s.take p = s.takeWhile (· ≠ c) ∧
      s.drop (p + 1) = (s.dropWhile (· ≠ c)).tail := by
  obtain ⟨a, b, rfl, ha⟩ := List.eq_append_cons_of_mem h
  have hpos : ∀ d ∈ a, decide (d ≠ c) = true := by
    intro d hd
    simpa using fun he : d = c => ha (he ▸ hd)
  refine ⟨a.length, find_singleton_append ha b, ?_, ?_⟩
  · rw [List.take_left, List.takeWhile_append_of_pos hpos, List.takeWhile_cons_of_neg (by simp),
      List.append_nil]
  · rw [List.dropWhile_append_of_pos hpos, List.dropWhile_cons_of_neg (by simp),
      List.drop_length_add_append]
    rfl

end Find

section Trim
variable (blank : α → Bool)

/-- Remove the blanks at both ends. -/
def trim (s : List α) : List α := (s.dropWhile blank).rdropWhile blank

variable {blank}

theorem trim_eq_nil_iff {s : List α} : trim blank s = [] ↔ ∀ c ∈ s, blank c = true := by
  rw [trim]
  rw [List.rdropWhile_eq_nil_iff]
  constructor
  · intro h c hc
    rw [← List.takeWhile_append_dropWhile (p := blank) (l := s)] at hc
    rcases List.mem_append.mp hc with hc | hc
    · exact List.mem_takeWhile_imp hc
    · exact h c hc
  · intro h c hc
    exact h c ((List.dropWhile_sublist blank).subset hc)

@[simp] theorem trim_nil : trim blank [] = [] := rfl

theorem trim_cons_of_blank {c : α} (h : blank c = true) (s : List α) :
    trim blank (c :: s) = trim blank s := by simp [trim, h]

theorem trim_concat_of_blank {c : α} (h : blank c = true) (s : List α) :
    trim blank (s ++ [c]) = trim blank s := by
  unfold trim
  by_cases hs : s.dropWhile blank = []
  · have hall := List.dropWhile_eq_nil_iff.mp hs
    have hall' : ∀ d ∈ s ++ [c], blank d = true := by
      intro d hd
      rcases List.mem_append.mp hd with hd | hd
      · exact hall d hd
      · exact List.mem_singleton.mp hd ▸ h
    rw [List.dropWhile_eq_nil_iff.mpr hall', hs]
  · rw [List.dropWhile_append, if_neg (by simpa using hs), List.rdropWhile_concat_pos _ _ _ h]

theorem trim_append_of_blank {s w : List α} (h : ∀ c ∈ w, blank c = true) :
    trim blank (s ++ w) = trim blank s := by
  induction w using List.reverseRecOn with
  | nil => simp
  | append_singleton w c ih =>
    rw [← List.append_assoc, trim_concat_of_blank (h c (by simp)),
      ih (fun d hd => h d (by simp [hd]))]

/-- Blanks at the two ends are all that trimming removes. -/
theorem trim_decompose (blank : α → Bool) (s : List α) : ∃ a b, s = a ++ trim blank s ++ b ∧
    (∀ c ∈ a, blank c = true) ∧ ∀ c ∈ b, blank c = true := by
  refine ⟨s.takeWhile blank, (s.dropWhile blank).rtakeWhile blank, ?_, ?_, ?_⟩
  · rw [List.append_assoc, trim, List.rdropWhile_append_rtakeWhile,
      List.takeWhile_append_dropWhile]
  · exact fun c hc => List.mem_takeWhile_imp hc
  · exact fun c hc => List.mem_rtakeWhile_imp hc

theorem trim_sublist (s : List α) : (trim blank s).Sublist s :=
  (List.rdropWhile_prefix blank _).sublist.trans (List.dropWhile_sublist blank)

theorem mem_of_mem_trim {s : List α} {c : α} (h : c ∈ trim blank s) : c ∈ s :=
  (trim_sublist s).subset h

@[simp] theorem trim_trim (s : List α) : trim blank (trim blank s) = trim blank s := by
  have hd : (trim blank s).dropWhile blank = trim blank s := by
    cases hts : trim blank s with
    | nil => rfl
    | cons c r =>
      obtain ⟨t, ht⟩ : trim blank s <+: s.dropWhile blank := List.rdropWhile_prefix blank _
      have hhead := List.head?_dropWhile_not blank s
      rw [← ht, hts] at hhead
      exact List.dropWhile_cons_of_neg (by simpa using hhead)
  rw [trim, hd]
  exact List.rdropWhile_idempotent _ _

theorem trim_cons_concat {s : List α} (hs : trim blank s = s) {c : α} (hc : blank c = true) :
    trim blank (c :: s) = s := by rw [trim_cons_of_blank hc, hs]

theorem length_trim_append_cons {s t : List α} (hs : trim blank s ≠ []) (ht : trim blank t ≠ [])
    (c : α) : (trim blank s).length < (trim blank (s ++ c :: t)).length := by
  have hsome : ∀ {u : List α}, trim blank u ≠ [] → ∃ d ∈ u, ¬blank d = true := fun hu => by
    by_contra hall
    exact hu (trim_eq_nil_iff.mpr (by simpa using hall))
  have hd : s.dropWhile blank ≠ [] := fun h => by
    obtain ⟨d, hd, hb⟩ := hsome hs
    exact hb (List.dropWhile_eq_nil_iff.mp h d hd)
  have hr : t.reverse.dropWhile blank ≠ [] := fun h => by
    obtain ⟨d, hd, hb⟩ := hsome ht
    exact hb (List.dropWhile_eq_nil_iff.mp h d (List.mem_reverse.mpr hd))
  have happ : trim blank (s ++ c :: t) = s.dropWhile blank ++ c :: t.rdropWhile blank := by
    rw [trim, List.dropWhile_append, if_neg (by simpa using hd)]
    rw [List.rdropWhile, List.reverse_append, List.reverse_cons, List.append_assoc,
      List.dropWhile_append, if_neg (by simpa using hr)]
    simp [List.rdropWhile]
  have hle : (trim blank s).length ≤ (s.dropWhile blank).length :=
    (List.rdropWhile_prefix blank _).length_le
  rw [happ, List.length_append, List.length_cons]
  omega

end Trim

theorem not_mem_intercalate {c : α} {sep : List α} (hsep : c ∉ sep) {ls : List (List α)}
    (hls : ∀ l ∈ ls, c ∉ l) : c ∉ sep.intercalate ls := by
  induction ls with
  | nil => exact List.not_mem_nil
  | cons l ls ih =>
    obtain ⟨hl, hls⟩ := List.forall_mem_cons.mp hls
    by_cases hnil : ls = []
    · rwa [hnil, List.intercalate_singleton]
    · rw [List.intercalate_cons_of_ne_nil hnil, List.mem_append, List.mem_append, not_or, not_or]
      exact ⟨⟨hl, hsep⟩, ih hls⟩

section Segments
variable [BEq α] [LawfulBEq α] {sep : α}

/-- The segments of a sequence after its first separator. -/
def later (sep : α) (s : List α) : List (List α) := (s.splitOn sep).tail

omit [LawfulBEq α] in
theorem splitOn_eq_cons_later (sep : α) (s : List α) :
    ∃ l, s.splitOn sep = l :: later sep s := by
  obtain ⟨l, ls, h⟩ := List.exists_cons_of_ne_nil (List.splitOn_ne_nil sep s)
  exact ⟨l, by simp [later, h]⟩

theorem later_of_not_mem {s : List α} (h : sep ∉ s) : later sep s = [] := by
  simp [later, List.splitOn_eq_singleton h]

theorem later_append_sep (s t : List α) :
    later sep (s ++ sep :: t) = later sep s ++ t.splitOn sep := by
  obtain ⟨l, hl⟩ := splitOn_eq_cons_later sep s
  rw [later, List.splitOn_append_cons_self, hl, List.cons_append, List.tail_cons]

omit [LawfulBEq α] in
theorem mem_later_cons {c : α} {s l : List α} (h : l ∈ later sep s) :
    l ∈ later sep (c :: s) := by
  obtain ⟨m, hm⟩ := splitOn_eq_cons_later sep s
  rw [later]
  rw [List.splitOn_cons_eq_if_modifyHead, hm]
  by_cases hc : (c == sep) = true
  · simpa [hc] using Or.inr h
  · simpa [hc] using h

theorem splitOn_append_of_not_mem {w : List α} (hw : sep ∉ w) (s : List α) :
    ∃ ls m, s.splitOn sep = ls ++ [m] ∧ (s ++ w).splitOn sep = ls ++ [m ++ w] := by
  induction s with
  | nil => exact ⟨[], [], by simp, by simpa using List.splitOn_eq_singleton hw⟩
  | cons c s ih =>
    obtain ⟨ls, m, hs, hsw⟩ := ih
    by_cases hc : (c == sep) = true
    · refine ⟨[] :: ls, m, ?_, ?_⟩
      · simp [List.splitOn_cons_eq_if_modifyHead, hc, hs]
      · simp [List.splitOn_cons_eq_if_modifyHead, hc, hsw]
    · cases ls with
      | nil =>
        refine ⟨[], c :: m, ?_, ?_⟩
        · simp [List.splitOn_cons_eq_if_modifyHead, hc, hs]
        · simp [List.splitOn_cons_eq_if_modifyHead, hc, hsw]
      | cons l ls =>
        refine ⟨(c :: l) :: ls, m, ?_, ?_⟩
        · simp [List.splitOn_cons_eq_if_modifyHead, hc, hs]
        · simp [List.splitOn_cons_eq_if_modifyHead, hc, hsw]

theorem mem_later_append {w : List α} (hw : sep ∉ w) {s l : List α}
    (h : l ∈ later sep (s ++ w)) : l ∈ later sep s ∨ ∃ m ∈ later sep s, l = m ++ w := by
  obtain ⟨ls, m, hs, hsw⟩ := splitOn_append_of_not_mem hw s
  rw [later] at h ⊢
  rw [hsw] at h
  rw [hs]
  cases ls with
  | nil => simp at h
  | cons k ls =>
    rcases List.mem_append.mp h with h | h
    · exact Or.inl (List.mem_append_left _ h)
    · exact Or.inr ⟨m, by simp, List.mem_singleton.mp h⟩

theorem mem_later_of_append {w : List α} (hw : sep ∉ w) {s m : List α}
    (h : m ∈ later sep s) : m ∈ later sep (s ++ w) ∨ m ++ w ∈ later sep (s ++ w) := by
  obtain ⟨ls, k, hs, hsw⟩ := splitOn_append_of_not_mem hw s
  rw [later] at h ⊢
  rw [hs] at h
  rw [hsw]
  cases ls with
  | nil => simp at h
  | cons j ls =>
    rcases List.mem_append.mp h with h | h
    · exact Or.inl (List.mem_append_left _ h)
    · exact Or.inr (by simp [List.mem_singleton.mp h])

theorem joined_splitOn (sep : α) (s : List α) : ∃ l, s.splitOn sep = l :: later sep s ∧
    s = l ++ (later sep s).flatMap (sep :: ·) ∧ sep ∉ l ∧ ∀ m ∈ later sep s, sep ∉ m := by
  induction s with
  | nil => exact ⟨[], by simp [later], by simp [later], by simp, by simp [later]⟩
  | cons c s ih =>
    obtain ⟨l, hs, he, hl, hls⟩ := ih
    by_cases hc : c = sep
    · subst hc
      have hlater : later c (c :: s) = l :: later c s := by
        rw [later, List.splitOn_cons_eq_if_modifyHead, if_pos (by simp), List.tail_cons, hs]
      refine ⟨[], ?_, ?_, by simp, ?_⟩
      · rw [List.splitOn_cons_eq_if_modifyHead, if_pos (by simp), hs, hlater]
      · rw [hlater, List.flatMap_cons, List.nil_append, List.cons_append, ← he]
      · rw [hlater]
        exact List.forall_mem_cons.mpr ⟨hl, hls⟩
    · have hlater : later sep (c :: s) = later sep s := by
        rw [later, List.splitOn_cons_eq_if_modifyHead, if_neg (by simpa using hc), hs,
          List.modifyHead_cons, List.tail_cons]
      rw [hlater]
      refine ⟨c :: l, ?_, by rw [List.cons_append, ← he], ?_, hls⟩
      · rw [List.splitOn_cons_eq_if_modifyHead, if_neg (by simpa using hc), hs,
          List.modifyHead_cons]
      · exact fun hm => (List.mem_cons.mp hm).elim (fun h => hc h.symm) hl

end Segments

end PyCtp.TextScanning
