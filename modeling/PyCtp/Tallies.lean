import Mathlib.Algebra.BigOperators.Group.Finset.Piecewise
import Mathlib.Algebra.BigOperators.Ring.Finset
import Mathlib.Algebra.Order.BigOperators.Group.Finset
import Mathlib.Data.Fintype.Card

/-!
# How many of finitely many parties are in a state

Counting invariants over a family of states need one fact: when one party changes its
state, the count of the old one drops by one and the count of the new one grows by one.
-/
namespace PyCtp.Tallies

variable {ι α : Type*} [Fintype ι] [DecidableEq ι] [DecidableEq α]

def tally (f : ι → α) (a : α) : ℕ := (Finset.univ.filter fun i => f i = a).card

omit [DecidableEq ι] in
theorem tally_eq_zero_iff {f : ι → α} {a : α} : tally f a = 0 ↔ ∀ i, f i ≠ a := by
  simp [tally, Finset.card_eq_zero, Finset.filter_eq_empty_iff]

theorem tally_update (f : ι → α) (i : ι) (b a : α) :
    tally (Function.update f i b) a + (if f i = a then 1 else 0) =
      tally f a + if b = a then 1 else 0 := by
  have hsplit : ∀ g : ι → α, tally g a =
      (if g i = a then 1 else 0) + ∑ j ∈ Finset.univ.erase i, if g j = a then 1 else 0 := by
    intro g
    rw [tally, Finset.card_filter]
    exact (Finset.add_sum_erase _ _ (Finset.mem_univ i)).symm
  have hrest : (∑ j ∈ Finset.univ.erase i, if Function.update f i b j = a then 1 else 0) =
      ∑ j ∈ Finset.univ.erase i, if f j = a then 1 else 0 :=
    Finset.sum_congr rfl fun j hj => by
      rw [Function.update_of_ne (Finset.ne_of_mem_erase hj)]
  rw [hsplit, hsplit f, hrest, Function.update_self]
  omega

theorem tally_leave {f : ι → α} {i : ι} {a b : α} (hi : f i = a) (hb : b ≠ a) :
    tally (Function.update f i b) a + 1 = tally f a := by
  have h := tally_update f i b a
  rwa [if_pos hi, if_neg hb, Nat.add_zero] at h

theorem tally_enter {f : ι → α} {i : ι} {b : α} (hi : f i ≠ b) :
    tally (Function.update f i b) b = tally f b + 1 := by
  have h := tally_update f i b b
  rwa [if_neg hi, if_pos rfl, Nat.add_zero] at h

section Total
variable {ι α : Type*} [Fintype ι]

/-- The weights of all parties' states together. -/
def total (w : α → ℕ) (f : ι → α) : ℕ := ∑ i, w (f i)

theorem le_total (w : α → ℕ) (f : ι → α) (i : ι) : w (f i) ≤ total w f :=
  Finset.single_le_sum (f := fun j => w (f j)) (fun _ _ => Nat.zero_le _) (Finset.mem_univ i)

theorem total_eq_zero {w : α → ℕ} {f : ι → α} (h : ∀ i, w (f i) = 0) : total w f = 0 :=
  Finset.sum_eq_zero fun i _ => h i

theorem total_le_total {v w : α → ℕ} {f : ι → α} (h : ∀ i, v (f i) ≤ w (f i)) :
    total v f ≤ total w f := Finset.sum_le_sum fun i _ => h i

theorem total_congr {v w : α → ℕ} {f : ι → α} (h : ∀ i, v (f i) = w (f i)) :
    total v f = total w f := Finset.sum_congr rfl fun i _ => h i

theorem total_le_card {w : α → ℕ} {f : ι → α} (h : ∀ i, w (f i) ≤ 1) :
    total w f ≤ Fintype.card ι := by
  rw [← Finset.card_univ, Finset.card_eq_sum_ones]
  exact Finset.sum_le_sum fun i _ => h i

/-- When one party changes its state, the total changes by the difference of the weights. -/
theorem total_update [DecidableEq ι] (w : α → ℕ) (f : ι → α) (i : ι) (b : α) :
    total w (Function.update f i b) + w (f i) = total w f + w b := by
  have hsplit : ∀ g : ι → α, total w g = w (g i) + ∑ j ∈ Finset.univ.erase i, w (g j) :=
    fun g => (Finset.add_sum_erase _ _ (Finset.mem_univ i)).symm
  have hrest : ∑ j ∈ Finset.univ.erase i, w (Function.update f i b j) =
      ∑ j ∈ Finset.univ.erase i, w (f j) :=
    Finset.sum_congr rfl fun j hj => by
      rw [Function.update_of_ne (Finset.ne_of_mem_erase hj)]
  rw [hsplit, hsplit f, hrest, Function.update_self]
  omega

theorem total_of_ne [DecidableEq ι] (w : α → ℕ) {f g : ι → α} {i : ι}
    (h : ∀ j, j ≠ i → g j = f j) : total w g + w (f i) = total w f + w (g i) := by
  have hg : g = Function.update f i (g i) := by
    funext j
    by_cases hj : j = i
    · subst hj
      rw [Function.update_self]
    · rw [Function.update_of_ne hj, h j hj]
  rw [hg, Function.update_self]
  exact total_update w f i (g i)

end Total

end PyCtp.Tallies
