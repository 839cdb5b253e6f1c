import Mathlib.Data.Option.Basic
import Mathlib.Tactic.Common

/-!
# While loops that may not end

A loop is its body, a partial function that is undefined where the condition fails.
`iter` runs it for a bounded number of tests; it ends when some bound is enough and
diverges when none is.
-/
namespace PyCtp.WhileLoops

variable {σ : Type*} {body : σ → Option σ}

/-- The state in which the loop ends, if at most `n` tests of its condition suffice. -/
def iter (body : σ → Option σ) : ℕ → σ → Option σ
  | 0, _ => none
  | n + 1, s =>
    match body s with
    | none => some s
    | some t => iter body n t

def Ends (body : σ → Option σ) (s t : σ) : Prop := ∃ n, iter body n s = some t

def Diverges (body : σ → Option σ) (s : σ) : Prop := ∀ n, iter body n s = none

theorem iter_exit {s : σ} (h : body s = none) (n : ℕ) : iter body (n + 1) s = some s := by
  simp [iter, h]

theorem iter_step {s t : σ} (h : body s = some t) (n : ℕ) :
    iter body (n + 1) s = iter body n t := by
  simp [iter, h]

theorem iter_mono {n : ℕ} {s t : σ} (h : iter body n s = some t) (k : ℕ) :
    iter body (n + k) s = some t := by
  induction n generalizing s with
  | zero => cases h
  | succ n ih =>
    rw [Nat.add_right_comm]
    cases hb : body s with
    | none =>
      rw [iter_exit hb] at h ⊢
      exact h
    | some u =>
      rw [iter_step hb] at h ⊢
      exact ih h

theorem Ends.unique {s t u : σ} (ht : Ends body s t) (hu : Ends body s u) : t = u := by
  obtain ⟨n, hn⟩ := ht
  obtain ⟨k, hk⟩ := hu
  have h := (iter_mono hn k).symm.trans (Nat.add_comm n k ▸ iter_mono hk n)
  exact Option.some.inj h

theorem Ends.exit {s : σ} (h : body s = none) : Ends body s s := ⟨1, iter_exit h 0⟩

theorem Ends.step {s t u : σ} (h : body s = some t) (ht : Ends body t u) : Ends body s u := by
  obtain ⟨n, hn⟩ := ht
  exact ⟨n + 1, (iter_step h n).trans hn⟩

theorem Ends.of_step {s t u : σ} (hs : Ends body s u) (h : body s = some t) : Ends body t u := by
  obtain ⟨n, hn⟩ := hs
  cases n with
  | zero => cases hn
  | succ n => exact ⟨n, (iter_step h n).symm.trans hn⟩

theorem Diverges.cons {s t : σ} (ht : Diverges body t) (h : body s = some t) :
    Diverges body s := by
  intro n
  cases n with
  | zero => rfl
  | succ n => exact (iter_step h n).trans (ht n)

theorem Diverges.not_ends {s : σ} (h : Diverges body s) (t : σ) : ¬Ends body s t := by
  rintro ⟨n, hn⟩
  rw [h n] at hn
  cases hn

/-- A loop ends if its body decreases a measure, with one test more than the measure. -/
theorem iter_of_measure (μ : σ → ℕ) (hstep : ∀ s t, body s = some t → μ t < μ s) {n : ℕ} {s : σ}
    (hs : μ s < n) : ∃ t, iter body n s = some t := by
  induction n generalizing s with
  | zero => omega
  | succ n ih =>
    cases hb : body s with
    | none => exact ⟨s, iter_exit hb n⟩
    | some u =>
      have hlt := hstep s u hb
      obtain ⟨t, ht⟩ := ih (s := u) (by omega)
      exact ⟨t, (iter_step hb n).trans ht⟩

/-- A loop diverges from an invariant that its body keeps and never leaves. -/
theorem diverges_of_invariant (I : σ → Prop) (hstep : ∀ s, I s → ∃ t, body s = some t ∧ I t)
    {s : σ} (hs : I s) : Diverges body s := by
  intro n
  induction n generalizing s with
  | zero => rfl
  | succ n ih =>
    obtain ⟨t, hb, ht⟩ := hstep s hs
    rw [iter_step hb]
    exact ih ht

end PyCtp.WhileLoops
