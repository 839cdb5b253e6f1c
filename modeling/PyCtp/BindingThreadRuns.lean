import PyCtp.BindingThreads

/-!
# Runs of the threads of the Python binding

The override calls are those of the callbacks in push order, and callbacks are left undelivered
by a quiet consumer only while another thread keeps the interpreter lock.
-/
namespace PyCtp
open LabelledRuns Tallies

namespace InterpreterLock

def Consumer.held : Consumer → List Binding.Task
  | .fetching => []
  | .waiting task | .handling task => [task]

/-- What the task loop sees of an event: a callback, or the end of a handler. -/
def loopEvents {τ : Type*} : Event τ → List (TaskLoop.Event Callback Binding.Outcome)
  | .callback cb => [.external cb]
  | .finish w => [.dispatch w]
  | _ => []

section Loop
variable {τ : Type*} [DecidableEq τ] {toUtf : Text → Text} {s t : State τ} {e : Event τ}

/-- The task loop has the fetched task still in its queue. -/
structure Refines (s : State τ) (b : TaskLoop.State Binding.Store Binding.Task) : Prop where
  store : b.store = s.store
  queue : b.queue = s.consumer.held ++ s.taskQueue
  locking : Locking s

omit [DecidableEq τ] in
theorem activeCall_store {c : ActiveCall} (h : s.activeCall c = some t) : t.store = s.store := by
  rw [State.activeCall.eq_def] at h
  split at h
  · obtain rfl := Option.some.inj h
    rfl
  · split at h
    · cases h
    · cases h
    · split at h
      all_goals
        obtain rfl := Option.some.inj h
        rfl

theorem alive_of_step (h : step toUtf s e = some t) : s.store.fault = none := by
  by_contra hfault
  rw [step.eq_def, if_pos (Option.isSome_iff_ne_none.mpr hfault)] at h
  cases h

/-- The consumer has the lock in a handler only. -/
def Holder (s : State τ) : Prop :=
  s.lock = .running .consumer ∨ s.lock = .joining .consumer → s.consumer.isHandling = true

theorem Holder.of_step (hs : Holder s) (h : step toUtf s e = some t) : Holder t := by
  intro hl
  cases step_cases h with
  | @acquire a hfree hmay =>
    obtain rfl : a = .consumer := by simpa using hl
    exact hmay
  | drop => simp at hl
  | call hrun hcall =>
    obtain ⟨hlock, hconsumer, -⟩ := activeCall_frame hcall
    rw [hlock] at hl
    rw [hconsumer]
    exact hs hl
  | @join a hrun =>
    obtain rfl : a = .consumer := by simpa using hl
    exact hs (Or.inl hrun)
  | @joinReturn a hjoin =>
    obtain rfl : a = .consumer := by simpa using hl
    exact hs (Or.inr hjoin)
  | callback => exact hs hl
  | fetch hc =>
    have hhandling := hs hl
    simp [hc] at hhandling
  | pyLock => rfl
  | finish => simp at hl

theorem Refines.of_step {b : TaskLoop.State Binding.Store Binding.Task} (hR : Refines s b)
    (h : step toUtf s e = some t) :
    ∃ b', run (Binding.binding toUtf).step b (loopEvents e) = some b' ∧ Refines t b' := by
  obtain ⟨hstore, hqueue, hlocking⟩ := hR
  have halive := alive_of_step h
  have hloop : (Binding.binding toUtf).alive b.store = true := by
    simp [Binding.binding, hstore, halive]
  have hnext := hlocking.of_step h
  cases step_cases h with
  | acquire => exact ⟨b, rfl, hstore, hqueue, hnext⟩
  | drop => exact ⟨b, rfl, hstore, hqueue, hnext⟩
  | join => exact ⟨b, rfl, hstore, hqueue, hnext⟩
  | joinReturn => exact ⟨b, rfl, hstore, hqueue, hnext⟩
  | call hrun hcall =>
    obtain ⟨-, hconsumer, htasks⟩ := activeCall_frame hcall
    refine ⟨b, rfl, hstore.trans (activeCall_store hcall).symm, ?_, hnext⟩
    rw [hconsumer, htasks, hqueue]
  | @callback cb hlive =>
    refine ⟨⟨b.store, b.queue ++ [Binding.pushed cb]⟩, run_singleton.mpr ?_, hstore, ?_, hnext⟩
    · rw [TaskLoop.step, if_pos hloop]
      rfl
    · dsimp only
      rw [hqueue, List.append_assoc]
  | @fetch task rest hc hq =>
    refine ⟨b, rfl, hstore, ?_, hnext⟩
    have htask : takesPyLock task = true := hlocking task (hq ▸ List.mem_cons_self)
    rw [hqueue, hc, hq, if_pos htask]
    rfl
  | @pyLock task hc hfree =>
    refine ⟨b, rfl, hstore, ?_, hnext⟩
    rw [hqueue, hc]
    rfl
  | @finish task w hc hrun =>
    rw [hc] at hqueue
    refine ⟨⟨Binding.processTask toUtf w task b.store, s.taskQueue⟩, run_singleton.mpr ?_, ?_,
      rfl, hnext⟩
    · rw [TaskLoop.step, if_pos hloop, hqueue]
      rfl
    · dsimp only
      rw [hstore]

end Loop
end InterpreterLock

namespace Binding
namespace Threads
variable {π τ : Type*} [DecidableEq π] [DecidableEq τ] {toUtf : Text → Text} {s t : State π τ}
  {e : Event π τ} {es : List (Event π τ)}

/-- A notification, a step of the consumer in `fetch` or `PyLock`, or the end of a handler that
does not end the process; not a wake-up without need, nor that the consumer drops the lock. -/
def Event.internal : Event π τ → Prop
  | .notifyOne .. | .fetch | .wait | .take => True
  | .outside .pyLock | .outside (.acquire .consumer) => True
  | .outside (.finish w) => w ≠ .exits
  | _ => False

/-- No notification is under way and the consumer cannot go on. -/
structure Quiet (toUtf : Text → Text) (s : State π τ) : Prop where
  alive : s.store.fault = none
  stuck : ∀ e, e.internal → step toUtf s e = none

namespace Quiet

theorem outside (hs : Quiet toUtf s) {e : InterpreterLock.Event τ}
    (hinternal : (Event.outside e : Event π τ).internal) (hlockless : e.lockless = false) :
    InterpreterLock.step toUtf s.view e = none := by
  have hstuck := hs.stuck _ hinternal
  rw [step, if_neg (by simp [hs.alive])] at hstuck
  simpa [hlockless] using hstuck

theorem eventQueue [Fintype π] (hs : Quiet toUtf s) (hheld : s.consumer = .fetching)
    (hcovered : ConcurrentQueue.Covered s.queue) : s.queue.eventQueue = [] := by
  have halive : ¬s.store.fault.isSome := by simp [hs.alive]
  have hproducers : ∀ p, s.queue.consumer () = .waiting → s.queue.producer p ≠ .notifying := by
    intro p hwaiting hp
    have hstuck := hs.stuck (.notifyOne p (some ())) trivial
    simp [step, hs.alive, State.onQueue, ConcurrentQueue.step, hp, hwaiting] at hstuck
  cases hc : s.queue.consumer () with
  | idle =>
    have hstuck := hs.stuck .fetch trivial
    simp [step, hs.alive, hheld, State.onQueue, ConcurrentQueue.step, hc] at hstuck
  | awake =>
    cases hq : s.queue.eventQueue with
    | nil => rfl
    | cons task rest =>
      have hstuck := hs.stuck .take trivial
      simp [step, hs.alive, hheld, State.onQueue, ConcurrentQueue.step, hc, hq] at hstuck
  | waiting =>
    have hle := hcovered ⟨(), hc⟩
    rw [tally_eq_zero_iff.mpr fun p => hproducers p hc,
      tally_eq_zero_iff.mpr fun c => by rw [hc]; decide] at hle
    exact List.eq_nil_of_length_eq_zero (Nat.le_zero.mp hle)

end Quiet

end Threads
end Binding
end PyCtp
