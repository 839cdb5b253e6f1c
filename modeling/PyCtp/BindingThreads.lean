import PyCtp.BindingRuns
import PyCtp.ConcurrentQueue
import PyCtp.InterpreterLock

/-!
# The threads of the Python binding

The callbacks of CTP, the consumer of `processTask` and the threads of the script, interleaved at
the critical sections of the task queue and at the calls that take or give back the interpreter
lock. Every run is one of `InterpreterLock`, where a push and a fetch are single steps, and that is
one of the task loop `binding`.
-/
namespace PyCtp
open LabelledRuns

namespace Binding
namespace Threads

/-- The queue with the positions of the callbacks in `push` and of the consumer in `fetch`; the
rest as in `InterpreterLock`. -/
structure State (π τ : Type*) where
  queue : ConcurrentQueue.State π Unit Task
  lock : InterpreterLock.Lock τ
  consumer : InterpreterLock.Consumer
  api : Option InterpreterLock.ApiObject
  abandoned : Bool
  store : Store

/-- `outside`: what concerns neither the queue nor its condition variable. The consumer calls
`fetch`; with the mutex it finds the queue empty and waits, or takes its front and returns. -/
inductive Event (π τ : Type*)
  | outside (e : InterpreterLock.Event τ)
  | push (p : π) (cb : Callback)
  | notifyOne (p : π) (woken : Option Unit)
  | fetch
  | wait
  | take
  | spurious

variable {π τ : Type*}

namespace State

def start [DecidableEq π] : State π τ := ⟨.start, .free, .fetching, none, false, .new⟩

/-- The state at the level of whole calls of `push` and `fetch`. -/
def view (s : State π τ) : InterpreterLock.State τ :=
  ⟨s.lock, s.consumer, s.api, s.abandoned, s.queue.eventQueue, s.store⟩

def withView (s : State π τ) (v : InterpreterLock.State τ) : State π τ :=
  { s with
    lock := v.lock
    consumer := v.consumer
    api := v.api
    abandoned := v.abandoned
    store := v.store }

def afterFetch (task : Task) : InterpreterLock.Consumer :=
  if InterpreterLock.takesPyLock task then .waiting task else .fetching

end State

section Steps
variable [DecidableEq π] [DecidableEq τ] (toUtf : Text → Text)

def State.onQueue (s : State π τ) (e : ConcurrentQueue.Event π Unit Task) : Option (State π τ) :=
  (ConcurrentQueue.step s.queue e).map fun queue => { s with queue := queue }

def step (s : State π τ) (e : Event π τ) : Option (State π τ) :=
  if s.store.fault.isSome then none else
  match e with
  | .outside e =>
    if e.lockless then none else (InterpreterLock.step toUtf s.view e).map s.withView
  | .push p cb => if s.view.live then s.onQueue (.push p (pushed cb)) else none
  | .notifyOne p woken => s.onQueue (.notifyOne p woken)
  | .fetch =>
    match s.consumer with
    | .fetching => s.onQueue (.fetch ())
    | _ => none
  | .wait =>
    match s.consumer, s.queue.eventQueue with
    | .fetching, [] => s.onQueue (.lock ())
    | _, _ => none
  | .take =>
    match s.consumer, s.queue.eventQueue with
    | .fetching, task :: _ =>
      (s.onQueue (.lock ())).map fun t => { t with consumer := State.afterFetch task }
    | _, _ => none
  | .spurious => s.onQueue (.spurious ())

end Steps

def queueEvents : Event π τ → List (ConcurrentQueue.Event π Unit Task)
  | .outside _ => []
  | .push p cb => [.push p (pushed cb)]
  | .notifyOne p woken => [.notifyOne p woken]
  | .fetch => [.fetch ()]
  | .wait | .take => [.lock ()]
  | .spurious => [.spurious ()]

def callbacks (es : List (Event π τ)) : List Callback :=
  es.filterMap fun
    | .push _ cb => some cb
    | _ => none

def outcomes (es : List (Event π τ)) : List Outcome :=
  es.filterMap fun
    | .outside (.finish w) => some w
    | _ => none

def heard (es : List (Event π τ)) : List (Outcome × Callback) := (outcomes es).zip (callbacks es)

inductive Step [DecidableEq π] [DecidableEq τ] (toUtf : Text → Text) (s : State π τ) :
    Event π τ → State π τ → Prop
  | outside {e v} (hlockless : e.lockless = false)
      (hv : InterpreterLock.step toUtf s.view e = some v) :
      Step toUtf s (.outside e) (s.withView v)
  | push {p cb queue} (hlive : s.view.live = true)
      (hq : ConcurrentQueue.step s.queue (.push p (pushed cb)) = some queue) :
      Step toUtf s (.push p cb) { s with queue := queue }
  | notifyOne {p woken queue}
      (hq : ConcurrentQueue.step s.queue (.notifyOne p woken) = some queue) :
      Step toUtf s (.notifyOne p woken) { s with queue := queue }
  | fetch {queue} (hc : s.consumer = .fetching)
      (hq : ConcurrentQueue.step s.queue (.fetch ()) = some queue) :
      Step toUtf s .fetch { s with queue := queue }
  | wait {queue} (hc : s.consumer = .fetching) (hempty : s.queue.eventQueue = [])
      (hq : ConcurrentQueue.step s.queue (.lock ()) = some queue) :
      Step toUtf s .wait { s with queue := queue }
  | take {task rest queue} (hc : s.consumer = .fetching)
      (hfront : s.queue.eventQueue = task :: rest)
      (hq : ConcurrentQueue.step s.queue (.lock ()) = some queue) :
      Step toUtf s .take { s with queue := queue, consumer := State.afterFetch task }
  | spurious {queue} (hq : ConcurrentQueue.step s.queue (.spurious ()) = some queue) :
      Step toUtf s .spurious { s with queue := queue }

section Cases
variable [DecidableEq π] [DecidableEq τ] {toUtf : Text → Text} {s t : State π τ} {e : Event π τ}

theorem step_cases (h : step toUtf s e = some t) : s.store.fault = none ∧ Step toUtf s e t := by
  rw [step.eq_def] at h
  split at h
  · cases h
  · rename_i halive
    refine ⟨by simpa using halive, ?_⟩
    cases e with
    | outside e =>
      dsimp only at h
      split at h
      · cases h
      · rename_i hlockless
        obtain ⟨v, hv, rfl⟩ := Option.map_eq_some_iff.mp h
        exact .outside (by simpa using hlockless) hv
    | push p cb =>
      dsimp only at h
      split at h
      · rename_i hlive
        obtain ⟨queue, hq, rfl⟩ := Option.map_eq_some_iff.mp h
        exact .push hlive hq
      · cases h
    | notifyOne p woken =>
      obtain ⟨queue, hq, rfl⟩ := Option.map_eq_some_iff.mp h
      exact .notifyOne hq
    | fetch =>
      dsimp only at h
      split at h
      · rename_i hc
        obtain ⟨queue, hq, rfl⟩ := Option.map_eq_some_iff.mp h
        exact .fetch hc hq
      · cases h
    | wait =>
      dsimp only at h
      split at h
      · rename_i hc hempty
        obtain ⟨queue, hq, rfl⟩ := Option.map_eq_some_iff.mp h
        exact .wait hc hempty hq
      · cases h
    | take =>
      dsimp only at h
      split at h
      · rename_i task rest hc hfront
        obtain ⟨u, hu, rfl⟩ := Option.map_eq_some_iff.mp h
        obtain ⟨queue, hq, rfl⟩ := Option.map_eq_some_iff.mp hu
        exact .take hc hfront hq
      · cases h
    | spurious =>
      obtain ⟨queue, hq, rfl⟩ := Option.map_eq_some_iff.mp h
      exact .spurious hq

theorem queue_of_run {es : List (Event π τ)} (h : run (step toUtf) s es = some t) :
    run ConcurrentQueue.step s.queue (es.flatMap queueEvents) = some t.queue := by
  have hstep : ∀ (s : State π τ) queue e t, queue = s.queue → step toUtf s e = some t →
      ∃ queue', run ConcurrentQueue.step queue (queueEvents e) = some queue' ∧
        queue' = t.queue := by
    rintro s queue e t rfl he
    cases (step_cases he).2 with
    | outside => exact ⟨_, rfl, rfl⟩
    | push _ hq => exact ⟨_, run_singleton.mpr hq, rfl⟩
    | notifyOne hq => exact ⟨_, run_singleton.mpr hq, rfl⟩
    | fetch _ hq => exact ⟨_, run_singleton.mpr hq, rfl⟩
    | wait _ _ hq => exact ⟨_, run_singleton.mpr hq, rfl⟩
    | take _ _ hq => exact ⟨_, run_singleton.mpr hq, rfl⟩
    | spurious hq => exact ⟨_, run_singleton.mpr hq, rfl⟩
  obtain ⟨queue, hq, rfl⟩ := run_simulation (fun s queue => queue = s.queue) queueEvents hstep rfl h
  exact hq

end Cases

end Threads
end Binding
end PyCtp
