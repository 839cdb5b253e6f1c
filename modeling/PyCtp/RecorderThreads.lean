import PyCtp.BlockingQueueRuns
import PyCtp.RecorderRuns

/-!
# The threads of the recorder

The main thread, the CTP thread inside a callback and the consumer thread of `process_task`,
interleaved at the accesses to the counters of the queue between them. A callback builds its
task, calls `enqueue`, whose result it ignores, and after a login goes on to `subscribe`; the
consumer calls `wait_dequeue` and then the handler of the task.
-/
namespace PyCtp
open LabelledRuns

namespace MdApi
namespace Threads

/-- The CTP thread: outside the callbacks, in the `enqueue` of one, or before its `subscribe`. -/
inductive CtpThread
  | free
  | enqueuing (cb : Callback)
  | subscribing

structure State (D : Type*) where
  queue : BlockingQueue.State Unit Task
  store : Store D
  ctp : CtpThread
  handled : List Task

variable {D : Type*}

def State.start (disk : D) : State D := ⟨.start, .new disk, .free, []⟩

/-- The main thread calls `init`, `connect` and `close`; the CTP thread enters a callback, takes a
step of `enqueue`, returns from it, and subscribes to what the symbol file holds then, or uses up
the memory in the loop of `subscribe`; the consumer calls `wait_dequeue`, takes a step of it, and
handles the task. -/
inductive Event
  | init
  | connect
  | close
  | callback (cb : Callback) (allocated : Bool)
  | produce
  | leaveEnqueue
  | subscribe (symbolFile : Option Text)
  | exhaust
  | waitDequeue
  | consume (weak : Bool)
  | handle

/-- `subscribe` through an object that `close` may have released meanwhile. -/
def subscribe (symbolFile : Option Text) (s : Store D) : Store D :=
  if (subscribeNames symbolFile).isSome ∧ s.api ≠ .live then s.fail .nullApi
  else s.subscribe symbolFile

def afterEnqueue : Callback → CtpThread
  | .onRspUserLogin .. => .subscribing
  | _ => .free

section Steps
variable (fs : FileSystem D Text Char) (sizes : FieldSizes) (cfg : Config) (width : ℕ)

def State.onQueue (s : State D) (e : BlockingQueue.Event Unit Task) : Option (State D) :=
  (BlockingQueue.step width s.queue e).map fun queue => { s with queue := queue }

def State.advance (s : State D) : Event → Option (State D)
  | .init => (s.store.accept cfg .init).map fun store => { s with store := store }
  | .connect => (s.store.accept cfg .connect).map fun store => { s with store := store }
  | .close => (s.store.accept cfg .close).map fun store => { s with store := store }
  | .callback cb allocated =>
    match s.ctp with
    | .free =>
      if s.store.api = .live ∧ s.store.hung = false then
        match enqueued cb with
        | none => some { s with store := s.store.fail .nullArgument }
        | some task =>
          (s.onQueue width (.enqueue task allocated)).map fun t => { t with ctp := .enqueuing cb }
      else none
    | _ => none
  | .produce => s.onQueue width .produce
  | .leaveEnqueue =>
    match s.ctp with
    | .enqueuing cb =>
      (s.onQueue width .leaveEnqueue).map fun t => { t with ctp := afterEnqueue cb }
    | _ => none
  | .subscribe symbolFile =>
    match s.ctp with
    | .subscribing => some { s with store := subscribe symbolFile s.store, ctp := .free }
    | _ => none
  | .exhaust => if s.store.hung then some { s with store := s.store.fail .badAlloc } else none
  | .waitDequeue => if s.store.started then s.onQueue width (.waitDequeue ()) else none
  | .consume weak => s.onQueue width (.consume () weak)
  | .handle =>
    match s.queue.consumer () with
    | .returned task =>
      (s.onQueue width (.leaveDequeue ())).map fun t =>
        { t with
          store := processTask fs sizes cfg task t.store
          handled := t.handled ++ [task] }
    | _ => none

def step (s : State D) (e : Event) : Option (State D) :=
  if s.store.fault.isNone then s.advance fs sizes cfg width e else none

end Steps

def queueEvents : Event → List (BlockingQueue.Event Unit Task)
  | .callback cb allocated => (enqueued cb).toList.map (.enqueue · allocated)
  | .produce => [.produce]
  | .leaveEnqueue => [.leaveEnqueue]
  | .waitDequeue => [.waitDequeue ()]
  | .consume weak => [.consume () weak]
  | .handle => [.leaveDequeue ()]
  | _ => []

def arrived (es : List Event) : List Task :=
  es.filterMap fun
    | .callback cb _ => enqueued cb
    | _ => none

section Cases
variable {fs : FileSystem D Text Char} {sizes : FieldSizes} {cfg : Config} {width : ℕ}
  {s t : State D}

inductive Step (fs : FileSystem D Text Char) (sizes : FieldSizes) (cfg : Config) (width : ℕ)
    (s : State D) : Event → State D → Prop
  | init : Step fs sizes cfg width s .init { s with store := s.store.init }
  | connect (hstarted : s.store.started = true) :
    Step fs sizes cfg width s .connect { s with store := s.store.connect cfg }
  | close : Step fs sizes cfg width s .close { s with store := s.store.close }
  | nullArgument {cb : Callback} {allocated : Bool} (hcb : enqueued cb = none)
      (hapi : s.store.api = .live) :
    Step fs sizes cfg width s (.callback cb allocated)
      { s with store := s.store.fail .nullArgument }
  | callback {cb : Callback} {allocated : Bool} {task : Task}
      {queue : BlockingQueue.State Unit Task} (hcb : enqueued cb = some task)
      (hapi : s.store.api = .live)
      (hq : BlockingQueue.step width s.queue (.enqueue task allocated) = some queue) :
    Step fs sizes cfg width s (.callback cb allocated)
      { s with queue := queue, ctp := .enqueuing cb }
  | produce {queue : BlockingQueue.State Unit Task}
      (hq : BlockingQueue.step width s.queue .produce = some queue) :
    Step fs sizes cfg width s .produce { s with queue := queue }
  | leaveEnqueue {cb : Callback} {queue : BlockingQueue.State Unit Task}
      (hctp : s.ctp = .enqueuing cb)
      (hq : BlockingQueue.step width s.queue .leaveEnqueue = some queue) :
    Step fs sizes cfg width s .leaveEnqueue { s with queue := queue, ctp := afterEnqueue cb }
  | subscribe {symbolFile : Option Text} (hctp : s.ctp = .subscribing) :
    Step fs sizes cfg width s (.subscribe symbolFile)
      { s with store := subscribe symbolFile s.store, ctp := .free }
  | exhaust (hhung : s.store.hung = true) :
    Step fs sizes cfg width s .exhaust { s with store := s.store.fail .badAlloc }
  | waitDequeue {queue : BlockingQueue.State Unit Task}
      (hq : BlockingQueue.step width s.queue (.waitDequeue ()) = some queue) :
    Step fs sizes cfg width s .waitDequeue { s with queue := queue }
  | consume {weak : Bool} {queue : BlockingQueue.State Unit Task}
      (hq : BlockingQueue.step width s.queue (.consume () weak) = some queue) :
    Step fs sizes cfg width s (.consume weak) { s with queue := queue }
  | handle {task : Task} {queue : BlockingQueue.State Unit Task}
      (hc : s.queue.consumer () = .returned task)
      (hq : BlockingQueue.step width s.queue (.leaveDequeue ()) = some queue) :
    Step fs sizes cfg width s .handle { s with
      queue := queue
      store := processTask fs sizes cfg task s.store
      handled := s.handled ++ [task] }

theorem onQueue_map {e : BlockingQueue.Event Unit Task} {f : State D → State D}
    (h : (s.onQueue width e).map f = some t) :
    ∃ queue, BlockingQueue.step width s.queue e = some queue ∧
      t = f { s with queue := queue } := by
  obtain ⟨u, hu, rfl⟩ := Option.map_eq_some_iff.mp h
  obtain ⟨queue, hqueue, rfl⟩ := Option.map_eq_some_iff.mp hu
  exact ⟨queue, hqueue, rfl⟩

theorem step_cases {e : Event} (h : step fs sizes cfg width s e = some t) :
    s.store.fault = none ∧ Step fs sizes cfg width s e t := by
  rw [step] at h
  split at h
  · rename_i halive
    refine ⟨Option.isNone_iff_eq_none.mp halive, ?_⟩
    rw [State.advance.eq_def] at h
    cases e with
    | init =>
      obtain ⟨store, hstore, rfl⟩ := Option.map_eq_some_iff.mp h
      rw [Store.accept] at hstore
      split at hstore
      · cases hstore
      · obtain rfl := Option.some.inj hstore
        exact .init
    | connect =>
      obtain ⟨store, hstore, rfl⟩ := Option.map_eq_some_iff.mp h
      rw [Store.accept] at hstore
      split at hstore
      · rename_i hinit
        obtain rfl := Option.some.inj hstore
        exact .connect hinit.1
      · cases hstore
    | close =>
      obtain ⟨store, hstore, rfl⟩ := Option.map_eq_some_iff.mp h
      rw [Store.accept] at hstore
      split at hstore
      · obtain rfl := Option.some.inj hstore
        exact .close
      · cases hstore
    | callback cb allocated =>
      dsimp only at h
      split at h
      · split at h
        · rename_i hctp hfree
          split at h
          · rename_i hcb
            obtain rfl := Option.some.inj h
            exact .nullArgument hcb hfree.1
          · rename_i task hcb
            obtain ⟨queue, hq, rfl⟩ := onQueue_map h
            exact .callback hcb hfree.1 hq
        · cases h
      · cases h
    | produce =>
      obtain ⟨queue, hq, rfl⟩ := Option.map_eq_some_iff.mp h
      exact .produce hq
    | leaveEnqueue =>
      dsimp only at h
      split at h
      · rename_i cb hctp
        obtain ⟨queue, hq, rfl⟩ := onQueue_map h
        exact .leaveEnqueue hctp hq
      · cases h
    | subscribe symbolFile =>
      dsimp only at h
      split at h
      · rename_i hctp
        obtain rfl := Option.some.inj h
        exact .subscribe hctp
      · cases h
    | exhaust =>
      dsimp only at h
      split at h
      · rename_i hhung
        obtain rfl := Option.some.inj h
        exact .exhaust hhung
      · cases h
    | waitDequeue =>
      dsimp only at h
      split at h
      · obtain ⟨queue, hq, rfl⟩ := Option.map_eq_some_iff.mp h
        exact .waitDequeue hq
      · cases h
    | consume weak =>
      obtain ⟨queue, hq, rfl⟩ := Option.map_eq_some_iff.mp h
      exact .consume hq
    | handle =>
      dsimp only at h
      split at h
      · rename_i task hc
        obtain ⟨queue, hq, rfl⟩ := onQueue_map h
        exact .handle hc hq
      · cases h
  · cases h

theorem queue_of_step {e : Event} (h : step fs sizes cfg width s e = some t) :
    run (BlockingQueue.step width) s.queue (queueEvents e) = some t.queue := by
  cases (step_cases h).2 with
  | init => rfl
  | connect => rfl
  | close => rfl
  | subscribe => rfl
  | exhaust => rfl
  | nullArgument hcb =>
    rw [queueEvents, hcb]
    rfl
  | callback hcb hapi hq =>
    rw [queueEvents, hcb]
    exact run_singleton.mpr hq
  | produce hq => exact run_singleton.mpr hq
  | leaveEnqueue hctp hq => exact run_singleton.mpr hq
  | waitDequeue hq => exact run_singleton.mpr hq
  | consume hq => exact run_singleton.mpr hq
  | handle hc hq => exact run_singleton.mpr hq

theorem queue_of_run {es : List Event} (h : run (step fs sizes cfg width) s es = some t) :
    run (BlockingQueue.step width) s.queue (es.flatMap queueEvents) = some t.queue := by
  obtain ⟨queue, hq, rfl⟩ := run_simulation (fun s queue => queue = s.queue) queueEvents
    (fun s queue e t hs he => ⟨t.queue, hs ▸ queue_of_step he, rfl⟩) rfl h
  exact hq

end Cases

theorem offered_queueEvents (es : List Event) :
    BlockingQueue.offered (es.flatMap queueEvents) = arrived es := by
  have hone : ∀ e, BlockingQueue.offered (queueEvents e) = arrived [e] := by
    intro e
    cases e with
    | callback cb allocated =>
      cases hcb : enqueued cb <;> simp [queueEvents, arrived, BlockingQueue.offered, hcb]
    | _ => rfl
  induction es with
  | nil => rfl
  | cons e es ih =>
    have hcons : arrived (e :: es) = arrived [e] ++ arrived es :=
      List.filterMap_append (l := [e])
    rw [List.flatMap_cons, hcons, ← ih, ← hone]
    exact List.filterMap_append

end Threads
end MdApi
end PyCtp
