import Mathlib.Data.List.Induction
import Mathlib.Data.Option.Basic
import Mathlib.Tactic.Common

/-!
# Runs of labelled transition systems

A step function that is undefined where an event cannot happen, and the runs it has
along a list of events. What a run does is derived from its steps by `run_invariant`,
or by `run_history` where the property speaks of the events so far.
-/
namespace PyCtp.LabelledRuns

variable {σ ε : Type*} {step : σ → ε → Option σ}

/-- The state after the given events, if each of them could happen in turn. -/
def run (step : σ → ε → Option σ) (s : σ) : List ε → Option σ
  | [] => some s
  | e :: es => (step s e).bind fun t => run step t es

@[simp] theorem run_nil (s : σ) : run step s [] = some s := rfl

theorem run_cons {s t : σ} {e : ε} {es : List ε} :
    run step s (e :: es) = some t ↔ ∃ u, step s e = some u ∧ run step u es = some t := by
  simp [run, Option.bind_eq_some_iff]

theorem run_append {s t : σ} {es fs : List ε} :
    run step s (es ++ fs) = some t ↔
      ∃ u, run step s es = some u ∧ run step u fs = some t := by
  induction es generalizing s with
  | nil => simp
  | cons e es ih =>
    simp only [List.cons_append, run_cons, ih]
    constructor
    · rintro ⟨v, hv, u, hu, hf⟩
      exact ⟨u, ⟨v, hv, hu⟩, hf⟩
    · rintro ⟨u, ⟨v, hv, hu⟩, hf⟩
      exact ⟨v, hv, u, hu, hf⟩

theorem run_singleton {s t : σ} {e : ε} : run step s [e] = some t ↔ step s e = some t := by
  simp [run_cons]

theorem run_concat {s t : σ} {es : List ε} {e : ε} :
    run step s (es ++ [e]) = some t ↔ ∃ u, run step s es = some u ∧ step u e = some t := by
  simp [run_append, run_singleton]

/-- What every step preserves holds after every run. -/
theorem run_invariant (I : σ → Prop) (hstep : ∀ s e t, I s → step s e = some t → I t)
    {s t : σ} {es : List ε} (hs : I s) (hrun : run step s es = some t) : I t := by
  induction es generalizing s with
  | nil => exact Option.some.inj hrun ▸ hs
  | cons e es ih =>
    obtain ⟨u, hu, hrun⟩ := run_cons.mp hrun
    exact ih (hstep s e u hs hu) hrun

/-- The same for a property of the state and of the events that led to it. -/
theorem run_history {s : σ} (P : List ε → σ → Prop) (hnil : P [] s)
    (hstep : ∀ es t e u, run step s es = some t → P es t → step t e = some u →
      P (es ++ [e]) u)
    {es : List ε} {t : σ} (hrun : run step s es = some t) : P es t := by
  induction es using List.reverseRecOn generalizing t with
  | nil => exact Option.some.inj hrun ▸ hnil
  | append_singleton es e ih =>
    obtain ⟨u, hu, he⟩ := run_concat.mp hrun
    exact hstep es u e t hu (ih hu) he

/-- Every step of the run along the given events has the property. -/
def Along (step : σ → ε → Option σ) (s : σ) (es : List ε) (P : σ → ε → σ → Prop) : Prop :=
  ∀ before e after t u, es = before ++ e :: after → run step s before = some t →
    step t e = some u → P t e u

theorem run_invariant_along (I : σ → Prop) (P : σ → ε → σ → Prop)
    (hstep : ∀ s e t, I s → step s e = some t → P s e t → I t) {s t : σ} {es : List ε}
    (hs : I s) (hP : Along step s es P) (hrun : run step s es = some t) : I t := by
  induction es generalizing s with
  | nil => exact Option.some.inj hrun ▸ hs
  | cons e es ih =>
    obtain ⟨u, hu, hrun⟩ := run_cons.mp hrun
    refine ih (hstep s e u hs hu (hP [] e es s u rfl rfl hu)) ?_ hrun
    intro before e' after v w hes hv hw
    exact hP (e :: before) e' after v w (by rw [hes]; rfl) (run_cons.mpr ⟨u, hu, hv⟩) hw

theorem along_concat {P : σ → ε → σ → Prop} {s : σ} {es : List ε} {e : ε}
    (hP : Along step s es P)
    (hlast : ∀ t u, run step s es = some t → step t e = some u → P t e u) :
    Along step s (es ++ [e]) P := by
  intro before e' after t u hes ht hu
  rcases List.eq_nil_or_concat after with rfl | ⟨after, e'', rfl⟩
  · obtain ⟨rfl, heq⟩ := List.append_inj' hes rfl
    obtain rfl := List.head_eq_of_cons_eq heq
    exact hlast t u ht hu
  · refine hP before e' after t u ?_ ht hu
    rw [List.concat_eq_append, ← List.cons_append, ← List.append_assoc] at hes
    exact (List.append_inj' hes rfl).1

theorem along_congr {P Q : σ → ε → σ → Prop}
    (h : ∀ s e t, step s e = some t → (P s e t ↔ Q s e t)) (s : σ) (es : List ε) :
    Along step s es P ↔ Along step s es Q := by
  constructor
  · intro hP before e after t u hes ht hu
    exact (h t e u hu).mp (hP before e after t u hes ht hu)
  · intro hQ before e after t u hes ht hu
    exact (h t e u hu).mpr (hQ before e after t u hes ht hu)

section Cost
variable {I : σ → Prop} {P : ε → Prop} {cost : σ → ℕ}

/-- Where every step of some kind costs something, their number is bounded. -/
theorem run_length_le (hstep : ∀ s e t, I s → P e → step s e = some t → I t ∧ cost t < cost s)
    {s t : σ} {es : List ε} (hs : I s) (hes : ∀ e ∈ es, P e) (hrun : run step s es = some t) :
    es.length + cost t ≤ cost s := by
  induction es generalizing s with
  | nil =>
    obtain rfl := Option.some.inj hrun
    simp
  | cons e es ih =>
    obtain ⟨he, hes⟩ := List.forall_mem_cons.mp hes
    obtain ⟨u, hu, hrun⟩ := run_cons.mp hrun
    obtain ⟨hI, hlt⟩ := hstep s e u hs he hu
    have hle := ih hI hes hrun
    rw [List.length_cons]
    omega

theorem exists_run_stuck
    (hstep : ∀ s e t, I s → P e → step s e = some t → I t ∧ cost t < cost s) {s : σ} (hs : I s) :
    ∃ es t, (∀ e ∈ es, P e) ∧ run step s es = some t ∧ I t ∧ ∀ e, P e → step t e = none := by
  induction hn : cost s using Nat.strongRecOn generalizing s with
  | _ n ih =>
    by_cases hstuck : ∀ e, P e → step s e = none
    · exact ⟨[], s, by simp, rfl, hs, hstuck⟩
    · push Not at hstuck
      obtain ⟨e, he, hsome⟩ := hstuck
      obtain ⟨u, hu⟩ := Option.ne_none_iff_exists'.mp hsome
      obtain ⟨hI, hlt⟩ := hstep s e u hs he hu
      obtain ⟨es, t, hes, hrun, hIt, hlast⟩ := ih (cost u) (hn ▸ hlt) hI rfl
      exact ⟨e :: es, t, List.forall_mem_cons.mpr ⟨he, hes⟩, run_cons.mpr ⟨u, hu, hrun⟩, hIt,
        hlast⟩

end Cost

/-- If every step is matched by a run of another system, so is every run. -/
theorem run_simulation {τ δ : Type*} {step' : τ → δ → Option τ} (R : σ → τ → Prop)
    (view : ε → List δ)
    (hstep : ∀ s s' e t, R s s' → step s e = some t →
      ∃ t', run step' s' (view e) = some t' ∧ R t t')
    {s t : σ} {s' : τ} {es : List ε} (hs : R s s') (hrun : run step s es = some t) :
    ∃ t', run step' s' (es.flatMap view) = some t' ∧ R t t' := by
  induction es generalizing s s' with
  | nil => exact ⟨s', rfl, Option.some.inj hrun ▸ hs⟩
  | cons e es ih =>
    obtain ⟨u, hu, hrun⟩ := run_cons.mp hrun
    obtain ⟨u', hu', hR⟩ := hstep s s' e u hs hu
    obtain ⟨t', ht', hT⟩ := ih hR hrun
    exact ⟨t', by rw [List.flatMap_cons]; exact run_append.mpr ⟨u', hu', ht'⟩, hT⟩

end PyCtp.LabelledRuns
