import PyCtp.BindingThreadRuns

/-!
# Progress of the Python binding

With the interpreter lock free the consumer and the notifications under way get on, whatever
their order, until every callback is handled.
-/
namespace PyCtp
open LabelledRuns Tallies

namespace Binding
namespace Threads

/-- The steps that a notification is worth: itself and the wake-up of the consumer. -/
def producerCost : ConcurrentQueue.Producer → ℕ
  | .idle => 0
  | .notifying => 2

/-- The steps until the consumer waits on the condition variable or holds the next task. -/
def fetchCost : ConcurrentQueue.Consumer → ℕ
  | .idle => 2
  | .awake => 1
  | .waiting => 0

section Cost
variable {π τ : Type*} [DecidableEq τ]

def stage (s : State π τ) : ℕ :=
  match s.consumer with
  | .fetching => fetchCost (s.queue.consumer ())
  | .waiting _ => 4
  | .handling _ => if s.lock = .running .consumer then 3 else 4

/-- The steps that are left with the tasks there are. -/
def cost [Fintype π] (s : State π τ) : ℕ :=
  5 * s.queue.eventQueue.length + stage s + total producerCost s.queue.producer

theorem fetchCost_le (c : ConcurrentQueue.Consumer) : fetchCost c ≤ 2 := by
  cases c <;> decide

variable [Fintype π] [DecidableEq π] {toUtf : Text → Text} {s t : State π τ} {e : Event π τ}

theorem cost_of_step (he : e.internal) (h : step toUtf s e = some t) : cost t < cost s := by
  cases (step_cases h).2 with
  | @outside e v hlockless hv =>
    cases InterpreterLock.step_cases hv with
    | @acquire a hfree hmay =>
      cases a with
      | script i => cases he
      | consumer =>
        have hlock : s.lock ≠ .running .consumer := by
          intro hrun
          simp [State.view, hrun] at hfree
        cases hc : s.consumer with
        | fetching => simp [InterpreterLock.State.mayAcquire, State.view, hc] at hmay
        | waiting task => simp [InterpreterLock.State.mayAcquire, State.view, hc] at hmay
        | handling task => simp [cost, stage, State.withView, State.view, hc, hlock]
    | pyLock hc hfree =>
      have hc : s.consumer = .waiting _ := hc
      simp [cost, stage, State.withView, State.view, hc]
    | @finish task w hc hrun =>
      have hc : s.consumer = .handling task := hc
      have hrun : s.lock = .running .consumer := hrun
      have hle := fetchCost_le (s.queue.consumer ())
      simp only [cost, stage, State.withView, hc, hrun, if_true]
      omega
    | _ => cases he
  | push => cases he
  | @notifyOne p woken queue hq =>
    cases ConcurrentQueue.step_cases hq with
    | notifyNone hp hnone =>
      have htotal := total_update producerCost s.queue.producer p .idle
      rw [hp, producerCost, producerCost] at htotal
      simp only [cost, stage]
      omega
    | @notifySome _ c hp hc =>
      have htotal := total_update producerCost s.queue.producer p .idle
      rw [hp, producerCost, producerCost] at htotal
      have hwaiting : s.queue.consumer () = .waiting := hc
      cases hconsumer : s.consumer with
      | fetching =>
        simp only [cost, stage, hconsumer, hwaiting, fetchCost, Function.update_self]
        omega
      | waiting task =>
        simp only [cost, stage, hconsumer]
        omega
      | handling task =>
        simp only [cost, stage, hconsumer]
        omega
  | fetch hc hq =>
    cases ConcurrentQueue.step_cases hq with
    | fetch hidle => simp [cost, stage, hc, hidle, fetchCost]
  | wait hc hempty hq =>
    cases ConcurrentQueue.step_cases hq with
    | wait hawake => simp [cost, stage, hc, hawake, fetchCost]
    | take hawake hfront =>
      rw [hempty] at hfront
      cases hfront
  | @take task rest queue hc hfront hq =>
    cases ConcurrentQueue.step_cases hq with
    | wait hawake hempty =>
      rw [hempty] at hfront
      cases hfront
    | take hawake hcons =>
      obtain ⟨rfl, rfl⟩ := List.cons.inj (hfront.symm.trans hcons)
      have hstage : stage s = 1 := by simp [stage, hc, hawake, fetchCost]
      simp only [cost, hstage, hfront, List.length_cons, State.afterFetch]
      split
      · simp only [stage]
        omega
      · simp only [stage, Function.update_self, fetchCost]
        omega
  | spurious => cases he

end Cost

section Serve
variable {π τ : Type*} [Fintype π] [DecidableEq π] [DecidableEq τ] {toUtf : Text → Text}
  {s t : State π τ} {e : Event π τ} {es : List (Event π τ)} {cs : List Callback}

/-- What the consumer relies on and keeps: no thread of the script has the lock. -/
structure Serving (toUtf : Text → Text) (cs : List Callback) (s : State π τ) : Prop where
  reached : ∃ es, run (step toUtf) .start es = some s ∧ callbacks es = cs ∧
    ∀ w ∈ outcomes es, w ≠ .exits
  lock : s.lock = .free ∨ s.lock = .running .consumer

omit [Fintype π] in
theorem lock_of_step (he : e.internal) (h : step toUtf s e = some t)
    (hlock : s.lock = .free ∨ s.lock = .running .consumer) :
    t.lock = .free ∨ t.lock = .running .consumer := by
  cases (step_cases h).2 with
  | @outside e v hlockless hv =>
    cases InterpreterLock.step_cases hv with
    | @acquire a hfree hmay =>
      cases a with
      | script i => cases he
      | consumer => exact Or.inr rfl
    | pyLock => exact Or.inr rfl
    | finish => exact Or.inl rfl
    | _ => cases he
  | _ => exact hlock

omit [Fintype π] in
theorem Serving.step (hs : Serving toUtf cs s) (he : e.internal)
    (h : Threads.step toUtf s e = some t) : Serving toUtf cs t := by
  obtain ⟨⟨es, hrun, rfl, hexits⟩, hlock⟩ := hs
  refine ⟨⟨es ++ [e], run_concat.mpr ⟨s, hrun, h⟩, ?_, ?_⟩, lock_of_step he h hlock⟩
  · rw [callbacks, List.filterMap_append]
    cases e with
    | push => cases he
    | _ => exact List.append_nil _
  · intro w hw
    rw [outcomes, List.filterMap_append] at hw
    rcases List.mem_append.mp hw with hold | hnew
    · exact hexits w hold
    · cases e with
      | outside e =>
        cases e with
        | finish w' =>
          obtain rfl : w = w' := by simpa using hnew
          exact he
        | _ => simp at hnew
      | _ => simp at hnew

end Serve

end Threads
end Binding
end PyCtp
