import PyCtp.Binding
import PyCtp.LabelledRuns

/-!
# The interpreter lock

The threads of a Python script, the consumer thread and the callbacks of CTP around one
`MdApi` of the binding. A wrapped call keeps the interpreter lock, `join` returns after a
release only, and every handler starts with a `PyLock`.
-/
namespace PyCtp
open LabelledRuns

namespace InterpreterLock
open Binding

/-- A thread that can hold the interpreter lock: one of the script's, or the consumer. -/
inductive Thread (τ : Type*)
  | script (t : τ)
  | consumer
  deriving DecidableEq, Repr

/-- The lock: free, held by a thread that runs Python or a call about to return, or held by a
thread inside `join`. -/
inductive Lock (τ : Type*)
  | free
  | running (a : Thread τ)
  | joining (a : Thread τ)
  deriving DecidableEq, Repr

/-- The consumer: inside `fetch`, inside `PyLock` with a fetched task, or past it. -/
inductive Consumer
  | fetching
  | waiting (task : Task)
  | handling (task : Task)

structure ApiObject where
  inited : Bool
  released : Bool
  deriving DecidableEq, Repr

/-- CTP calls back between `Init` and `Release`. -/
def ApiObject.live (o : ApiObject) : Bool := o.inited && !o.released

/-- `abandoned`: an object that was live when `createFtdcMdApi` overwrote the pointer to it. -/
structure State (τ : Type*) where
  lock : Lock τ
  consumer : Consumer
  api : Option ApiObject
  abandoned : Bool
  taskQueue : List Task
  store : Store

/-- After the constructor, which starts the consumer. -/
def State.start {τ : Type*} : State τ := ⟨.free, .fetching, none, false, [], .new⟩

/-- The wrapped calls that return without waiting for anything. -/
inductive ActiveCall
  | createFtdcMdApi | release | init | getTradingDay | registerFront
  | subscribeMarketData | unSubscribeMarketData | subscribeForQuoteRsp | unSubscribeForQuoteRsp
  | reqUserLogin | reqUserLogout
  deriving DecidableEq, Repr

/-- A thread takes or drops the lock between two calls, makes a call, enters or leaves `join`;
CTP calls back; the consumer fetches a task, gets past `PyLock`, and ends a handler. -/
inductive Event (τ : Type*)
  | acquire (a : Thread τ)
  | drop (a : Thread τ)
  | call (a : Thread τ) (c : ActiveCall)
  | join (a : Thread τ)
  | joinReturn (a : Thread τ)
  | callback (cb : Callback)
  | fetch
  | pyLock
  | finish (w : Outcome)

/-- The case of `processTask` leads to a handler, each of which starts with `PyLock lock`. -/
def takesPyLock (task : Task) : Bool :=
  match task.taskName with
  | TaskName.onFrontConnected | TaskName.onFrontDisconnected | TaskName.onHeartBeatWarning
  | TaskName.onRspUserLogin | TaskName.onRspUserLogout | TaskName.onRspError
  | TaskName.onRspSubMarketData | TaskName.onRspUnSubMarketData
  | TaskName.onRspSubForQuoteRsp | TaskName.onRspUnSubForQuoteRsp
  | TaskName.onRtnDepthMarketData | TaskName.onRtnForQuoteRsp => true
  | _ => false

@[simp] def Consumer.isHandling : Consumer → Bool
  | .handling _ => true
  | _ => false

@[simp] def Consumer.isWaiting : Consumer → Bool
  | .waiting _ => true
  | _ => false

variable {τ : Type*}

namespace State

def live (s : State τ) : Bool := s.abandoned || s.api.any ApiObject.live

def released (s : State τ) : Bool := s.api.any ApiObject.released

/-- What a call does to the object. Without an object or after its release there is none that
has a defined effect, except to create one. -/
def activeCall (s : State τ) : ActiveCall → Option (State τ)
  | .createFtdcMdApi => some { s with api := some ⟨false, false⟩, abandoned := s.live }
  | c =>
    match s.api with
    | none | some ⟨_, true⟩ => none
    | some o =>
      match c with
      | .init => some { s with api := some { o with inited := true } }
      | .release => some { s with api := some { o with released := true } }
      | _ => some s

def mayAcquire (s : State τ) : Thread τ → Bool
  | .script _ => true
  | .consumer => s.consumer.isHandling

end State

/-- One event, if it can happen. Nothing happens after the process ended. -/
def step [DecidableEq τ] (toUtf : Text → Text) (s : State τ) (e : Event τ) : Option (State τ) :=
  if s.store.fault.isSome then none else
  match e with
  | .acquire a =>
    if s.lock = .free ∧ s.mayAcquire a then some { s with lock := .running a } else none
  | .drop a => if s.lock = .running a then some { s with lock := .free } else none
  | .call a c => if s.lock = .running a then s.activeCall c else none
  | .join a =>
    if s.lock = .running a ∧ s.api.isSome then some { s with lock := .joining a } else none
  | .joinReturn a =>
    if s.lock = .joining a ∧ s.released then some { s with lock := .running a } else none
  | .callback cb =>
    if s.live then some { s with taskQueue := s.taskQueue ++ [pushed cb] } else none
  | .fetch =>
    match s.consumer, s.taskQueue with
    | .fetching, task :: taskQueue =>
      some { s with
        consumer := if takesPyLock task then .waiting task else .fetching
        taskQueue := taskQueue }
    | _, _ => none
  | .pyLock =>
    match s.consumer with
    | .waiting task =>
      if s.lock = .free then
        some { s with lock := .running .consumer, consumer := .handling task }
      else none
    | _ => none
  | .finish w =>
    match s.consumer with
    | .handling task =>
      if s.lock = .running .consumer then
        some { s with
          lock := .free
          consumer := .fetching
          store := processTask toUtf w task s.store }
      else none
    | _ => none

/-- A fetched task waits in `PyLock` while the lock is held inside a `join` that only returns
after a later release. -/
def Deadlocked (s : State τ) : Prop :=
  (∃ a, s.lock = .joining a) ∧ s.released = false ∧ ∃ task, s.consumer = .waiting task

/-- No task waits in `PyLock` and none ever will while the lock is kept: the consumer is past
`PyLock`, or it has nothing to fetch and CTP does not call back. -/
def Settled (s : State τ) : Prop :=
  s.consumer.isWaiting = false ∧
    (s.consumer.isHandling = true ∨ s.taskQueue = [] ∧ s.live = false)

/-- A thread of the script enters `join` only when it returns at once or no task is to come. -/
def SafeJoin (s : State τ) : Event τ → Prop
  | .join (.script _) => s.released = true ∨ Settled s
  | _ => True

def Event.lockless : Event τ → Bool
  | .callback _ | .fetch => true
  | _ => false

inductive Step (toUtf : Text → Text) (s : State τ) : Event τ → State τ → Prop
  | acquire {a} (hfree : s.lock = .free) (hmay : s.mayAcquire a = true) :
      Step toUtf s (.acquire a) { s with lock := .running a }
  | drop {a} (hrun : s.lock = .running a) : Step toUtf s (.drop a) { s with lock := .free }
  | call {a c t} (hrun : s.lock = .running a) (hcall : s.activeCall c = some t) :
      Step toUtf s (.call a c) t
  | join {a} (hrun : s.lock = .running a) (hapi : s.api.isSome = true) :
      Step toUtf s (.join a) { s with lock := .joining a }
  | joinReturn {a} (hjoin : s.lock = .joining a) (hrel : s.released = true) :
      Step toUtf s (.joinReturn a) { s with lock := .running a }
  | callback {cb} (hlive : s.live = true) :
      Step toUtf s (.callback cb) { s with taskQueue := s.taskQueue ++ [pushed cb] }
  | fetch {task taskQueue} (hc : s.consumer = .fetching) (hq : s.taskQueue = task :: taskQueue) :
      Step toUtf s .fetch { s with
        consumer := if takesPyLock task then .waiting task else .fetching
        taskQueue := taskQueue }
  | pyLock {task} (hc : s.consumer = .waiting task) (hfree : s.lock = .free) :
      Step toUtf s .pyLock { s with lock := .running .consumer, consumer := .handling task }
  | finish {task w} (hc : s.consumer = .handling task) (hrun : s.lock = .running .consumer) :
      Step toUtf s (.finish w) { s with
        lock := .free
        consumer := .fetching
        store := processTask toUtf w task s.store }

section Steps
variable [DecidableEq τ] {toUtf : Text → Text} {s t : State τ} {e : Event τ}

theorem step_cases (h : step toUtf s e = some t) : Step toUtf s e t := by
  rw [step.eq_def] at h
  split at h
  · cases h
  cases e with
  | acquire a =>
    obtain ⟨⟨hfree, hmay⟩, rfl⟩ := by simpa using h
    exact .acquire hfree hmay
  | drop a =>
    obtain ⟨hrun, rfl⟩ := by simpa using h
    exact .drop hrun
  | call a c =>
    obtain ⟨hrun, hcall⟩ := by simpa using h
    exact .call hrun hcall
  | join a =>
    obtain ⟨⟨hrun, hapi⟩, rfl⟩ := by simpa using h
    exact .join hrun hapi
  | joinReturn a =>
    obtain ⟨⟨hjoin, hrel⟩, rfl⟩ := by simpa using h
    exact .joinReturn hjoin hrel
  | callback cb =>
    obtain ⟨hlive, rfl⟩ := by simpa using h
    exact .callback hlive
  | fetch =>
    dsimp only at h
    split at h
    · rename_i task taskQueue hc hq
      obtain rfl := Option.some.inj h
      exact .fetch hc hq
    · cases h
  | pyLock =>
    dsimp only at h
    split at h
    · rename_i task hc
      obtain ⟨hfree, rfl⟩ := by simpa using h
      exact .pyLock hc hfree
    · cases h
  | finish w =>
    dsimp only at h
    split at h
    · rename_i task hc
      obtain ⟨hrun, rfl⟩ := by simpa using h
      exact .finish hc hrun
    · cases h

omit [DecidableEq τ] in
theorem activeCall_frame {c : ActiveCall} (h : s.activeCall c = some t) :
    t.lock = s.lock ∧ t.consumer = s.consumer ∧ t.taskQueue = s.taskQueue := by
  rw [State.activeCall.eq_def] at h
  split at h
  · obtain rfl := Option.some.inj h
    exact ⟨rfl, rfl, rfl⟩
  · split at h
    · cases h
    · cases h
    · split at h
      all_goals
        obtain rfl := Option.some.inj h
        exact ⟨rfl, rfl, rfl⟩

theorem takesPyLock_pushed (cb : Callback) : takesPyLock (pushed cb) = true := by
  cases cb <;> rfl

theorem Deadlocked.of_step (hs : Deadlocked s) (h : step toUtf s e = some t) : Deadlocked t := by
  obtain ⟨⟨a, ha⟩, hrel, task, htask⟩ := hs
  cases step_cases h with
  | acquire hfree => simp [ha] at hfree
  | drop hrun => simp [ha] at hrun
  | call hrun => simp [ha] at hrun
  | join hrun => simp [ha] at hrun
  | joinReturn _ hreleased => simp [hrel] at hreleased
  | callback => exact ⟨⟨a, ha⟩, hrel, task, htask⟩
  | fetch hc => simp [htask] at hc
  | pyLock _ hfree => simp [ha] at hfree
  | finish hc => simp [htask] at hc

theorem Deadlocked.of_run {es : List (Event τ)} (hs : Deadlocked s)
    (h : run (step toUtf) s es = some t) : Deadlocked t :=
  run_invariant Deadlocked (fun _ _ _ hs h => hs.of_step h) hs h

/-- What holds between steps: the consumer holds the lock in a handler only, and a thread of
the script waits in `join` only with nothing else to come. -/
structure Inv (s : State τ) : Prop where
  holder : s.lock = .running .consumer ∨ s.lock = .joining .consumer →
    s.consumer.isHandling = true
  settled : ∀ t, s.lock = .joining (.script t) → s.released = true ∨ Settled s

omit [DecidableEq τ] in
theorem Inv.start : Inv (State.start : State τ) :=
  ⟨fun h => by simp [State.start] at h, fun t h => by simp [State.start] at h⟩

omit [DecidableEq τ] in
theorem Inv.not_deadlocked (hs : Inv s) : ¬Deadlocked s := by
  rintro ⟨⟨a, ha⟩, hrel, task, htask⟩
  cases a with
  | script t =>
    rcases hs.settled t ha with hreleased | ⟨hwait, -⟩
    · simp [hrel] at hreleased
    · simp [htask] at hwait
  | consumer =>
    have hhandling := hs.holder (Or.inr ha)
    simp [htask] at hhandling

theorem Inv.of_step (hs : Inv s) (h : step toUtf s e = some t) (hsafe : SafeJoin s e) : Inv t := by
  cases step_cases h with
  | @acquire a hfree hmay =>
    refine ⟨fun hl => ?_, fun t hl => by simp at hl⟩
    obtain rfl : a = .consumer := by simpa using hl
    exact hmay
  | drop => exact ⟨fun hl => by simp at hl, fun t hl => by simp at hl⟩
  | @call a c _ hrun hcall =>
    obtain ⟨hlock, hconsumer, -⟩ := activeCall_frame hcall
    refine ⟨fun hl => ?_, fun t' hl => ?_⟩
    · rw [hlock] at hl
      rw [hconsumer]
      exact hs.holder hl
    · simp [hlock, hrun] at hl
  | @join a hrun hapi =>
    refine ⟨fun hl => ?_, fun t hl => ?_⟩
    · obtain rfl : a = .consumer := by simpa using hl
      exact hs.holder (Or.inl hrun)
    · obtain rfl : a = .script t := by simpa using hl
      exact hsafe
  | @joinReturn a hjoin hrel =>
    refine ⟨fun hl => ?_, fun t hl => by simp at hl⟩
    obtain rfl : a = .consumer := by simpa using hl
    exact hs.holder (Or.inr hjoin)
  | callback hlive =>
    refine ⟨hs.holder, fun t hl => ?_⟩
    rcases hs.settled t hl with hrel | ⟨hwait, hhandling | ⟨-, hdead⟩⟩
    · exact Or.inl hrel
    · exact Or.inr ⟨hwait, Or.inl hhandling⟩
    · simp [hlive] at hdead
  | fetch hc hq =>
    refine ⟨fun hl => ?_, fun t hl => ?_⟩
    · have hhandling := hs.holder hl
      simp [hc] at hhandling
    · rcases hs.settled t hl with hrel | ⟨-, hhandling | ⟨hempty, -⟩⟩
      · exact Or.inl hrel
      · simp [hc] at hhandling
      · simp [hq] at hempty
  | pyLock => exact ⟨fun _ => rfl, fun t hl => by simp at hl⟩
  | finish => exact ⟨fun hl => by simp at hl, fun t hl => by simp at hl⟩

/-- Every queued task is one that a callback pushed, so its handler takes the lock. -/
def Locking (s : State τ) : Prop := ∀ task ∈ s.taskQueue, takesPyLock task = true

theorem Locking.of_step (hs : Locking s) (h : step toUtf s e = some t) : Locking t := by
  cases step_cases h with
  | call _ hcall =>
    obtain ⟨-, -, hqueue⟩ := activeCall_frame hcall
    rw [Locking, hqueue]
    exact hs
  | @callback cb =>
    intro task htask
    rcases List.mem_append.mp htask with hold | hnew
    · exact hs task hold
    · rw [List.mem_singleton.mp hnew]
      exact takesPyLock_pushed cb
  | fetch _ hq =>
    intro task htask
    exact hs task (hq ▸ List.mem_cons_of_mem _ htask)
  | _ => exact hs

theorem locking_of_run {es : List (Event τ)} (h : run (step toUtf) .start es = some s) :
    Locking s := by
  refine run_invariant Locking (fun _ _ _ hs h => hs.of_step h) ?_ h
  intro task htask
  cases htask

end Steps

section Joins
variable [DecidableEq τ] {toUtf : Text → Text} {s : State τ} {a : Thread τ}

variable (toUtf) in
theorem fetch_deadlocked {task : Task} {taskQueue : List Task} (halive : s.store.fault = none)
    (hlock : s.lock = .joining a) (hrel : s.released = false) (hc : s.consumer = .fetching)
    (hq : s.taskQueue = task :: taskQueue) (htask : takesPyLock task = true) :
    ∃ t, step toUtf s .fetch = some t ∧ Deadlocked t := by
  refine ⟨{ s with consumer := .waiting task, taskQueue := taskQueue }, ?_, ⟨a, hlock⟩, hrel,
    task, rfl⟩
  simp [step, halive, hc, hq, htask]

/-- With the lock kept in `join` and tasks to come, callbacks and fetches lead to a deadlock. -/
theorem exists_deadlock_of_joining (hs : Locking s) (halive : s.store.fault = none)
    (hlock : s.lock = .joining a) (hrel : s.released = false) (hsettled : ¬Settled s) :
    ∃ es t, (∀ e ∈ es, e.lockless = true) ∧ run (step toUtf) s es = some t ∧ Deadlocked t := by
  cases hc : s.consumer with
  | waiting task => exact ⟨[], s, by simp, rfl, ⟨a, hlock⟩, hrel, task, hc⟩
  | handling task =>
    refine absurd ⟨?_, Or.inl ?_⟩ hsettled
    · rw [hc]
      rfl
    · rw [hc]
      rfl
  | fetching =>
    cases hq : s.taskQueue with
    | cons task taskQueue =>
      have htask : takesPyLock task = true := hs task (hq ▸ List.mem_cons_self)
      obtain ⟨t, ht, hdead⟩ := fetch_deadlocked toUtf halive hlock hrel hc hq htask
      exact ⟨[.fetch], t, by simp [Event.lockless], run_singleton.mpr ht, hdead⟩
    | nil =>
      have hlive : s.live = true := by
        by_contra hlive
        refine hsettled ⟨?_, Or.inr ⟨hq, Bool.eq_false_iff.mpr hlive⟩⟩
        rw [hc]
        rfl
      have hback : step toUtf s (.callback .onFrontConnected) =
          some { s with taskQueue := [pushed .onFrontConnected] } := by
        simp [step, halive, hlive, hq]
      obtain ⟨t, ht, hdead⟩ := fetch_deadlocked toUtf
        (s := { s with taskQueue := [pushed .onFrontConnected] }) halive hlock hrel hc rfl
        (takesPyLock_pushed .onFrontConnected)
      refine ⟨[.callback .onFrontConnected, .fetch], t, by simp [Event.lockless], ?_, hdead⟩
      exact run_cons.mpr ⟨_, hback, run_singleton.mpr ht⟩

theorem exists_deadlock_of_not_safeJoin {t : State τ} {e : Event τ} (hs : Locking s)
    (h : step toUtf s e = some t) (hnot : ¬SafeJoin s e) :
    ∃ es u, (∀ e ∈ es, e.lockless = true) ∧ run (step toUtf) t es = some u ∧ Deadlocked u := by
  have halive : s.store.fault = none := by
    by_contra hfault
    rw [step.eq_def, if_pos (Option.isSome_iff_ne_none.mpr hfault)] at h
    cases h
  cases step_cases h with
  | @join b =>
    cases b with
    | consumer => exact absurd trivial hnot
    | script i =>
      obtain ⟨hrel, hsettled⟩ := not_or.mp hnot
      exact exists_deadlock_of_joining hs halive rfl (Bool.eq_false_iff.mpr hrel) hsettled
  | _ => exact absurd trivial hnot

end Joins

/-- No run whose joins are safe reaches a deadlock, and after a join that is not safe callbacks
and fetches alone lead to one. -/
theorem never_deadlocked_iff_safeJoin (τ : Type*) [DecidableEq τ] (toUtf : Text → Text) :
    (∀ (es : List (Event τ)) s, run (step toUtf) .start es = some s →
      Along (step toUtf) .start es (fun t e _ => SafeJoin t e) → ¬Deadlocked s) ∧
    ∀ (es : List (Event τ)) s e t, run (step toUtf) .start es = some s →
      step toUtf s e = some t → ¬SafeJoin s e →
      ∃ fs u, (∀ e ∈ fs, e.lockless = true) ∧ run (step toUtf) t fs = some u ∧ Deadlocked u := by
  constructor
  · intro es s hrun hsafe
    refine (run_invariant_along Inv _ ?_ Inv.start hsafe hrun).not_deadlocked
    intro s e t hs h hjoin
    exact hs.of_step h hjoin
  · intro es s e t hrun h hnot
    exact exists_deadlock_of_not_safeJoin (locking_of_run hrun) h hnot

section Script

def connectAndJoin : List (Event Unit) :=
  [.acquire (.script ()), .call (.script ()) .createFtdcMdApi,
    .call (.script ()) .registerFront, .call (.script ()) .init, .join (.script ()),
    .callback .onFrontConnected, .fetch]

theorem connectAndJoin_deadlocked :
    ¬∀ (es : List (Event Unit)) s, run (step id) .start es = some s → ¬Deadlocked s := by
  intro hnever
  exact hnever connectAndJoin _ rfl ⟨⟨_, rfl⟩, rfl, _, rfl⟩

end Script

end InterpreterLock
end PyCtp
