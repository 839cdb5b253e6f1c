import PyCtp.LabelledRuns
import PyCtp.Tallies

/-!
# The queue of the Python binding

`ConcurrentQueue`: producers push under the mutex and notify after releasing it, consumers
wait on the condition variable while the queue is empty. A step is one critical section, one
notification, or one wake-up. The queue is first-in first-out, and it never holds an item
that a waiting consumer is not going to be told of.
-/
namespace PyCtp
open LabelledRuns Tallies

namespace ConcurrentQueue

/-- `push` has released the mutex and is about to call `notify_one`, or is not running. -/
inductive Producer
  | idle | notifying
  deriving DecidableEq, Repr

/-- Outside `fetch`; inside it and about to hold the mutex; inside `wait`. -/
inductive Consumer
  | idle | awake | waiting
  deriving DecidableEq, Repr

/-- The queue, where its users are, the items returned by `fetch` in the order they were
taken, and whether `front` was ever called on an empty queue. -/
structure State (π κ δ : Type*) where
  eventQueue : List δ
  producer : π → Producer
  consumer : κ → Consumer
  taken : List δ
  underflow : Bool

inductive Event (π κ δ : Type*)
  | push (p : π) (data : δ)
  /-- `notify_one` after the unlock, with the consumer that it wakes. -/
  | notifyOne (p : π) (woken : Option κ)
  | fetch (c : κ)
  /-- The consumer gets the mutex and tests whether the queue is empty. -/
  | lock (c : κ)
  | spurious (c : κ)

variable {π κ δ : Type*} [DecidableEq π] [DecidableEq κ]

def State.start : State π κ δ := ⟨[], fun _ => .idle, fun _ => .idle, [], false⟩

/-- `front` and `pop`, at the end of `fetch`. -/
def State.take (s : State π κ δ) (c : κ) : State π κ δ :=
  match s.eventQueue.head? with
  | none => { s with underflow := true }
  | some event =>
    { s with
      eventQueue := s.eventQueue.tail
      taken := s.taken ++ [event]
      consumer := Function.update s.consumer c .idle }

/-- A notification wakes one waiting consumer, and none only if none waits. -/
def step [Fintype κ] (s : State π κ δ) : Event π κ δ → Option (State π κ δ)
  | .push p data =>
    if s.producer p = .idle then
      some { s with
        eventQueue := s.eventQueue ++ [data]
        producer := Function.update s.producer p .notifying }
    else none
  | .notifyOne p none =>
    if s.producer p = .notifying ∧ ∀ c, s.consumer c ≠ .waiting then
      some { s with producer := Function.update s.producer p .idle }
    else none
  | .notifyOne p (some c) =>
    if s.producer p = .notifying ∧ s.consumer c = .waiting then
      some { s with
        producer := Function.update s.producer p .idle
        consumer := Function.update s.consumer c .awake }
    else none
  | .fetch c =>
    if s.consumer c = .idle then
      some { s with consumer := Function.update s.consumer c .awake }
    else none
  | .lock c =>
    if s.consumer c = .awake then
      some (if s.eventQueue.isEmpty then
        { s with consumer := Function.update s.consumer c .waiting }
      else s.take c)
    else none
  | .spurious c =>
    if s.consumer c = .waiting then
      some { s with consumer := Function.update s.consumer c .awake }
    else none

inductive Step (s : State π κ δ) : Event π κ δ → State π κ δ → Prop
  | push {p data} (hp : s.producer p = .idle) : Step s (.push p data) { s with
      eventQueue := s.eventQueue ++ [data]
      producer := Function.update s.producer p .notifying }
  | notifyNone {p} (hp : s.producer p = .notifying) (hnone : ∀ c, s.consumer c ≠ .waiting) :
      Step s (.notifyOne p none) { s with producer := Function.update s.producer p .idle }
  | notifySome {p c} (hp : s.producer p = .notifying) (hc : s.consumer c = .waiting) :
      Step s (.notifyOne p (some c)) { s with
        producer := Function.update s.producer p .idle
        consumer := Function.update s.consumer c .awake }
  | fetch {c} (hc : s.consumer c = .idle) :
      Step s (.fetch c) { s with consumer := Function.update s.consumer c .awake }
  | wait {c} (hc : s.consumer c = .awake) (hempty : s.eventQueue = []) :
      Step s (.lock c) { s with consumer := Function.update s.consumer c .waiting }
  | take {c event rest} (hc : s.consumer c = .awake) (hfront : s.eventQueue = event :: rest) :
      Step s (.lock c) { s with
        eventQueue := rest
        taken := s.taken ++ [event]
        consumer := Function.update s.consumer c .idle }
  | spurious {c} (hc : s.consumer c = .waiting) :
      Step s (.spurious c) { s with consumer := Function.update s.consumer c .awake }

theorem step_cases [Fintype κ] {s t : State π κ δ} {e : Event π κ δ} (h : step s e = some t) :
    Step s e t := by
  cases e with
  | push p data =>
    obtain ⟨hp, rfl⟩ : s.producer p = .idle ∧ _ = t := by simpa [step] using h
    exact .push hp
  | notifyOne p woken =>
    cases woken with
    | none =>
      obtain ⟨⟨hp, hnone⟩, rfl⟩ :
          (s.producer p = .notifying ∧ ∀ c, s.consumer c ≠ .waiting) ∧ _ = t := by
        simpa [step] using h
      exact .notifyNone hp hnone
    | some c =>
      obtain ⟨⟨hp, hc⟩, rfl⟩ : (s.producer p = .notifying ∧ s.consumer c = .waiting) ∧ _ = t := by
        simpa [step] using h
      exact .notifySome hp hc
  | fetch c =>
    obtain ⟨hc, rfl⟩ : s.consumer c = .idle ∧ _ = t := by simpa [step] using h
    exact .fetch hc
  | lock c =>
    obtain ⟨hc, rfl⟩ : s.consumer c = .awake ∧ _ = t := by simpa [step] using h
    cases hq : s.eventQueue with
    | nil =>
      have hwait := Step.wait hc hq
      rw [hq] at hwait
      exact hwait
    | cons event rest =>
      rw [if_neg (by simp)]
      simp only [State.take, hq, List.head?_cons, List.tail_cons]
      exact .take hc hq
  | spurious c =>
    obtain ⟨hc, rfl⟩ : s.consumer c = .waiting ∧ _ = t := by simpa [step] using h
    exact .spurious hc

def pushed (es : List (Event π κ δ)) : List δ :=
  es.filterMap fun
    | .push _ data => some data
    | _ => none

omit [DecidableEq π] [DecidableEq κ] in
theorem pushed_append (es fs : List (Event π κ δ)) : pushed (es ++ fs) = pushed es ++ pushed fs :=
  List.filterMap_append

variable [Fintype π] [Fintype κ]

/-- A waiting consumer is covered: each queued item has a notification under way or a
consumer that is awake. -/
def Covered (s : State π κ δ) : Prop :=
  (∃ c, s.consumer c = .waiting) →
    s.eventQueue.length ≤ tally s.producer .notifying + tally s.consumer .awake

omit [DecidableEq π] [Fintype π] [Fintype κ] in
theorem waiting_of_update {f : κ → Consumer} {c : κ} {b : Consumer} (hb : b ≠ .waiting)
    (h : ∃ i, Function.update f c b i = .waiting) : ∃ i, f i = .waiting := by
  obtain ⟨i, hi⟩ := h
  refine ⟨i, ?_⟩
  by_cases hic : i = c
  · subst hic
    rw [Function.update_self] at hi
    exact absurd hi hb
  · rwa [Function.update_of_ne hic] at hi

omit [DecidableEq π] in
theorem Covered.awake {s : State π κ δ} (h : Covered s) {c : κ} (hc : s.consumer c ≠ .awake) :
    Covered { s with consumer := Function.update s.consumer c .awake } := by
  intro hw
  have hle := h (waiting_of_update (by decide) hw)
  have ha := tally_enter hc
  dsimp only
  omega

/-- One step keeps the items in order and every waiting consumer covered. -/
theorem step_preserves {s t : State π κ δ} {e : Event π κ δ} (h : step s e = some t)
    (hno : s.underflow = false) (hcov : Covered s) :
    t.taken ++ t.eventQueue = s.taken ++ s.eventQueue ++ pushed [e] ∧
      t.underflow = false ∧ Covered t := by
  cases e with
  | push p data =>
    obtain ⟨hp, rfl⟩ : s.producer p = .idle ∧ _ = t := by simpa [step] using h
    refine ⟨by simp [pushed], hno, fun hw => ?_⟩
    have hn := tally_enter (f := s.producer) (i := p) (b := .notifying) (by simp [hp])
    have hle := hcov hw
    simp only [List.length_append, List.length_singleton]
    omega
  | notifyOne p woken =>
    cases woken with
    | none =>
      obtain ⟨⟨-, hnone⟩, rfl⟩ :
          (s.producer p = .notifying ∧ ∀ c, s.consumer c ≠ .waiting) ∧ _ = t := by
        simpa [step] using h
      refine ⟨by simp [pushed], hno, ?_⟩
      rintro ⟨c, hc⟩
      exact absurd hc (hnone c)
    | some c =>
      obtain ⟨⟨hp, hc⟩, rfl⟩ : (s.producer p = .notifying ∧ s.consumer c = .waiting) ∧ _ = t := by
        simpa [step] using h
      refine ⟨by simp [pushed], hno, fun _ => ?_⟩
      have hn := tally_leave (b := .idle) hp (by decide)
      have ha := tally_enter (f := s.consumer) (i := c) (b := .awake) (by simp [hc])
      have hle := hcov ⟨c, hc⟩
      dsimp only
      omega
  | fetch c =>
    obtain ⟨hc, rfl⟩ : s.consumer c = .idle ∧ _ = t := by simpa [step] using h
    exact ⟨by simp [pushed], hno, hcov.awake (by simp [hc])⟩
  | lock c =>
    obtain ⟨hc, rfl⟩ : s.consumer c = .awake ∧ _ = t := by simpa [step] using h
    cases hq : s.eventQueue with
    | nil =>
      rw [if_pos (by rfl)]
      exact ⟨by simp [pushed], hno, fun _ => by simp⟩
    | cons event queue =>
      rw [if_neg (by simp)]
      simp only [State.take, hq, List.head?_cons, List.tail_cons]
      refine ⟨by simp [pushed], hno, fun hw => ?_⟩
      have ha := tally_leave (b := .idle) hc (by decide)
      have hle := hcov (waiting_of_update (by decide) hw)
      rw [hq, List.length_cons] at hle
      dsimp only
      omega
  | spurious c =>
    obtain ⟨hc, rfl⟩ : s.consumer c = .waiting ∧ _ = t := by simpa [step] using h
    exact ⟨by simp [pushed], hno, hcov.awake (by simp [hc])⟩

theorem run_preserves {es : List (Event π κ δ)} {t : State π κ δ}
    (hrun : run step State.start es = some t) :
    t.taken ++ t.eventQueue = pushed es ∧ t.underflow = false ∧ Covered t := by
  refine run_history (fun es t => t.taken ++ t.eventQueue = pushed es ∧ t.underflow = false ∧
    Covered t) ⟨rfl, rfl, fun h => ?_⟩ ?_ hrun
  · simp [State.start] at h
  · rintro es s e t - ⟨hfifo, hno, hcov⟩ he
    obtain ⟨hnext, hno, hcov⟩ := step_preserves he hno hcov
    exact ⟨by rw [hnext, hfifo, pushed_append], hno, hcov⟩

/-- In every run the items taken are the first ones pushed, the rest is still queued, and
`front` is never called on an empty queue; and no consumer waits beside a queued item
without a notification under way or another consumer awake. -/
theorem fifo_no_lost_wakeup (es : List (Event π κ δ)) (t : State π κ δ)
    (hrun : run step State.start es = some t) :
    (t.taken <+: pushed es ∧ t.taken ++ t.eventQueue = pushed es ∧ t.underflow = false) ∧
    ¬(t.eventQueue ≠ [] ∧ (∃ c, t.consumer c = .waiting) ∧
      (∀ p, t.producer p ≠ .notifying) ∧ ∀ c, t.consumer c ≠ .awake) := by
  obtain ⟨hfifo, hno, hcov⟩ := run_preserves hrun
  refine ⟨⟨⟨t.eventQueue, hfifo⟩, hfifo, hno⟩, ?_⟩
  rintro ⟨hne, hwaiting, hproducers, hconsumers⟩
  have hle := hcov hwaiting
  rw [tally_eq_zero_iff.mpr hproducers, tally_eq_zero_iff.mpr hconsumers] at hle
  exact hne (List.eq_nil_of_length_eq_zero (Nat.le_zero.mp hle))

def stealingRun : List (Event (Fin 2) (Fin 2) ℕ) :=
  [.fetch 0, .fetch 1, .lock 0, .lock 1, .push 0 10, .push 1 20, .notifyOne 0 (some 1),
    .lock 1, .fetch 1, .lock 1, .notifyOne 1 (some 0), .lock 0]

theorem fifo_no_lost_wakeup_stealing :
    ∃ t, run step State.start stealingRun = some t ∧ t.taken = [10, 20] ∧
      t.taken <+: pushed stealingRun := by
  obtain ⟨t, ht, htaken⟩ : ∃ t, run step State.start stealingRun = some t ∧
      t.taken = [10, 20] := ⟨_, rfl, rfl⟩
  exact ⟨t, ht, htaken, (fifo_no_lost_wakeup stealingRun t ht).1.1⟩

end ConcurrentQueue
end PyCtp
