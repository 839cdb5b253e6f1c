import PyCtp.LightweightSemaphore
import PyCtp.ProducerQueueRuns

/-!
# The recorder's queue

`BlockingConcurrentQueue` with one producer: `enqueue` puts the element into the inner queue and
then signals the semaphore, `wait_dequeue` waits for the semaphore and then calls `try_dequeue`
until it succeeds. The steps are those of the inner queue and of the semaphore.
-/
namespace PyCtp
open LabelledRuns Tallies

namespace BlockingQueue

/-- The producer: outside `enqueue`, in that of the inner queue, in `signal` before and after the
access to the counter, or returned. -/
inductive Producer
  | idle
  | enqueuing
  | signalling
  | releasing
  | returned (ok : Bool)
  deriving DecidableEq

/-- A consumer: outside `wait_dequeue`, in `wait`, before a `try_dequeue`, in it, or returned. -/
inductive Consumer (δ : Type*)
  | idle
  | waiting
  | trying
  | dequeuing
  | returned (item : δ)

structure State (κ δ : Type*) where
  inner : ProducerQueue.State κ δ
  sema : LightweightSemaphore.State Unit κ
  producer : Producer
  consumer : κ → Consumer δ

variable {κ δ : Type*}

def State.start : State κ δ where
  inner := .start
  sema := .start 0
  producer := .idle
  consumer _ := .idle

/-- A thread enters a call, takes its next step in it, or goes on after it. -/
inductive Event (κ δ : Type*)
  | enqueue (element : δ) (allocated : Bool)
  | produce
  | leaveEnqueue
  | waitDequeue (c : κ)
  | consume (c : κ) (weak : Bool)
  | leaveDequeue (c : κ)

section Steps
variable [DecidableEq κ] (width : ℕ)

namespace State
variable (s : State κ δ)

def goto (c : κ) (k : Consumer δ) : State κ δ :=
  { s with consumer := Function.update s.consumer c k }

def onInner (e : ProducerQueue.Event κ δ) : Option (State κ δ) :=
  (ProducerQueue.step width s.inner e).map fun inner => { s with inner := inner }

def onSema (e : LightweightSemaphore.Event Unit κ) : Option (State κ δ) :=
  (LightweightSemaphore.step s.sema e).map fun sema => { s with sema := sema }

def produce : Option (State κ δ) :=
  match s.producer with
  | .enqueuing =>
    match s.inner.producer with
    | .returned ok =>
      (s.onInner width .leaveEnqueue).map fun t =>
        { t with producer := if ok then .signalling else .returned false }
    | .publishing _ => s.onInner width .publish
    | _ => s.onInner width .construct
  | .signalling =>
    (s.onSema (.signal () 1)).map fun t =>
      { t with producer := if t.sema.toRelease () > 0 then .releasing else .returned true }
  | .releasing =>
    (s.onSema (.release ())).map fun t => { t with producer := .returned true }
  | .idle | .returned _ => none

def consume (c : κ) (weak : Bool) : Option (State κ δ) :=
  match s.consumer c with
  | .waiting =>
    match s.sema.waiter c with
    | .returned _ => (s.onSema (.leave c)).map (·.goto c .trying)
    | _ => s.onSema (.advance c weak)
  | .trying => (s.onInner width (.tryDequeue c)).map (·.goto c .dequeuing)
  | .dequeuing =>
    match s.inner.consumer c with
    | .returned (some item) => (s.onInner width (.leave c)).map (·.goto c (.returned item))
    | .returned none => (s.onInner width (.leave c)).map (·.goto c .trying)
    | _ => s.onInner width (.advance c)
  | .idle | .returned _ => none

end State

def step (s : State κ δ) : Event κ δ → Option (State κ δ)
  | .enqueue element allocated =>
    match s.producer with
    | .idle =>
      (s.onInner width (.enqueue element allocated)).map fun t => { t with producer := .enqueuing }
    | _ => none
  | .produce => s.produce width
  | .leaveEnqueue =>
    match s.producer with
    | .returned _ => some { s with producer := .idle }
    | _ => none
  | .waitDequeue c =>
    match s.consumer c with
    | .idle => (s.onSema (.wait c false)).map (·.goto c .waiting)
    | _ => none
  | .consume c weak => s.consume width c weak
  | .leaveDequeue c =>
    match s.consumer c with
    | .returned _ => some (s.goto c .idle)
    | _ => none

end Steps

section Cases
variable [DecidableEq κ] {width : ℕ} {s t : State κ δ}

inductive Step (width : ℕ) (s : State κ δ) : Event κ δ → State κ δ → Prop
  | enqueue {x : δ} {allocated : Bool} {inner : ProducerQueue.State κ δ} (hp : s.producer = .idle)
      (hinner : ProducerQueue.step width s.inner (.enqueue x allocated) = some inner) :
    Step width s (.enqueue x allocated) { s with inner := inner, producer := .enqueuing }
  | construct {inner : ProducerQueue.State κ δ} (hp : s.producer = .enqueuing)
      (hinner : ProducerQueue.step width s.inner .construct = some inner) :
    Step width s .produce { s with inner := inner }
  | publish {inner : ProducerQueue.State κ δ} (hp : s.producer = .enqueuing)
      (hinner : ProducerQueue.step width s.inner .publish = some inner) :
    Step width s .produce { s with inner := inner }
  | enqueued {ok : Bool} {inner : ProducerQueue.State κ δ} (hp : s.producer = .enqueuing)
      (hok : s.inner.producer = .returned ok)
      (hinner : ProducerQueue.step width s.inner .leaveEnqueue = some inner) :
    Step width s .produce { s with
      inner := inner, producer := if ok then .signalling else .returned false }
  | signal {sema : LightweightSemaphore.State Unit κ} (hp : s.producer = .signalling)
      (hsema : LightweightSemaphore.step s.sema (.signal () 1) = some sema) :
    Step width s .produce { s with
      sema := sema
      producer := if sema.toRelease () > 0 then .releasing else .returned true }
  | release {sema : LightweightSemaphore.State Unit κ} (hp : s.producer = .releasing)
      (hsema : LightweightSemaphore.step s.sema (.release ()) = some sema) :
    Step width s .produce { s with sema := sema, producer := .returned true }
  | leaveEnqueue {ok : Bool} (hp : s.producer = .returned ok) :
    Step width s .leaveEnqueue { s with producer := .idle }
  | wait {c : κ} {sema : LightweightSemaphore.State Unit κ} (hc : s.consumer c = .idle)
      (hsema : LightweightSemaphore.step s.sema (.wait c false) = some sema) :
    Step width s (.waitDequeue c) ({ s with sema := sema }.goto c .waiting)
  | waiting {c : κ} {weak : Bool} {sema : LightweightSemaphore.State Unit κ}
      (hc : s.consumer c = .waiting)
      (hsema : LightweightSemaphore.step s.sema (.advance c weak) = some sema) :
    Step width s (.consume c weak) { s with sema := sema }
  | granted {c : κ} {weak : Bool} {sema : LightweightSemaphore.State Unit κ}
      (hc : s.consumer c = .waiting)
      (hsema : LightweightSemaphore.step s.sema (.leave c) = some sema) :
    Step width s (.consume c weak) ({ s with sema := sema }.goto c .trying)
  | tryDequeue {c : κ} {weak : Bool} {inner : ProducerQueue.State κ δ}
      (hc : s.consumer c = .trying)
      (hinner : ProducerQueue.step width s.inner (.tryDequeue c) = some inner) :
    Step width s (.consume c weak) ({ s with inner := inner }.goto c .dequeuing)
  | dequeuing {c : κ} {weak : Bool} {inner : ProducerQueue.State κ δ}
      (hc : s.consumer c = .dequeuing)
      (hinner : ProducerQueue.step width s.inner (.advance c) = some inner) :
    Step width s (.consume c weak) { s with inner := inner }
  | found {c : κ} {weak : Bool} {item : δ} {inner : ProducerQueue.State κ δ}
      (hc : s.consumer c = .dequeuing) (hitem : s.inner.consumer c = .returned (some item))
      (hinner : ProducerQueue.step width s.inner (.leave c) = some inner) :
    Step width s (.consume c weak) ({ s with inner := inner }.goto c (.returned item))
  | missed {c : κ} {weak : Bool} {inner : ProducerQueue.State κ δ}
      (hc : s.consumer c = .dequeuing) (hnone : s.inner.consumer c = .returned none)
      (hinner : ProducerQueue.step width s.inner (.leave c) = some inner) :
    Step width s (.consume c weak) ({ s with inner := inner }.goto c .trying)
  | leaveDequeue {c : κ} {item : δ} (hc : s.consumer c = .returned item) :
    Step width s (.leaveDequeue c) (s.goto c .idle)

theorem onInner_map {e : ProducerQueue.Event κ δ} {f : State κ δ → State κ δ}
    (h : (s.onInner width e).map f = some t) :
    ∃ inner, ProducerQueue.step width s.inner e = some inner ∧ t = f { s with inner := inner } := by
  obtain ⟨u, hu, rfl⟩ := Option.map_eq_some_iff.mp h
  obtain ⟨inner, hinner, rfl⟩ := Option.map_eq_some_iff.mp hu
  exact ⟨inner, hinner, rfl⟩

theorem onSema_map {e : LightweightSemaphore.Event Unit κ} {f : State κ δ → State κ δ}
    (h : (s.onSema e).map f = some t) :
    ∃ sema, LightweightSemaphore.step s.sema e = some sema ∧ t = f { s with sema := sema } := by
  obtain ⟨u, hu, rfl⟩ := Option.map_eq_some_iff.mp h
  obtain ⟨sema, hsema, rfl⟩ := Option.map_eq_some_iff.mp hu
  exact ⟨sema, hsema, rfl⟩

theorem produce_cases (h : s.produce width = some t) : Step width s .produce t := by
  rw [State.produce] at h
  cases hp : s.producer with
  | enqueuing =>
    rw [hp] at h
    cases hi : s.inner.producer with
    | returned ok =>
      rw [hi] at h
      obtain ⟨inner, hinner, rfl⟩ := onInner_map h
      exact .enqueued hp hi hinner
    | publishing x =>
      rw [hi] at h
      obtain ⟨inner, hinner, rfl⟩ := Option.map_eq_some_iff.mp h
      exact .publish hp hinner
    | _ =>
      rw [hi] at h
      obtain ⟨inner, hinner, rfl⟩ := Option.map_eq_some_iff.mp h
      exact .construct hp hinner
  | signalling =>
    rw [hp] at h
    obtain ⟨sema, hsema, rfl⟩ := onSema_map h
    exact .signal hp hsema
  | releasing =>
    rw [hp] at h
    obtain ⟨sema, hsema, rfl⟩ := onSema_map h
    exact .release hp hsema
  | _ =>
    rw [hp] at h
    cases h

theorem consume_cases {c : κ} {weak : Bool} (h : s.consume width c weak = some t) :
    Step width s (.consume c weak) t := by
  rw [State.consume] at h
  cases hc : s.consumer c with
  | waiting =>
    rw [hc] at h
    dsimp only at h
    split at h
    · obtain ⟨sema, hsema, rfl⟩ := onSema_map h
      exact .granted hc hsema
    · obtain ⟨sema, hsema, rfl⟩ := Option.map_eq_some_iff.mp h
      exact .waiting hc hsema
  | trying =>
    rw [hc] at h
    obtain ⟨inner, hinner, rfl⟩ := onInner_map h
    exact .tryDequeue hc hinner
  | dequeuing =>
    rw [hc] at h
    dsimp only at h
    split at h
    · rename_i item hitem
      obtain ⟨inner, hinner, rfl⟩ := onInner_map h
      exact .found hc hitem hinner
    · rename_i hnone
      obtain ⟨inner, hinner, rfl⟩ := onInner_map h
      exact .missed hc hnone hinner
    · obtain ⟨inner, hinner, rfl⟩ := Option.map_eq_some_iff.mp h
      exact .dequeuing hc hinner
  | _ =>
    rw [hc] at h
    cases h

theorem step_cases {e : Event κ δ} (h : step width s e = some t) : Step width s e t := by
  cases e with
  | enqueue x allocated =>
    rw [step] at h
    split at h
    · rename_i hp
      obtain ⟨inner, hinner, rfl⟩ := onInner_map h
      exact .enqueue hp hinner
    · cases h
  | produce => exact produce_cases h
  | leaveEnqueue =>
    rw [step] at h
    split at h
    · rename_i ok hp
      obtain rfl := Option.some.inj h
      exact .leaveEnqueue hp
    · cases h
  | waitDequeue c =>
    rw [step] at h
    split at h
    · rename_i hc
      obtain ⟨sema, hsema, rfl⟩ := onSema_map h
      exact .wait hc hsema
    · cases h
  | consume c weak => exact consume_cases h
  | leaveDequeue c =>
    rw [step] at h
    split at h
    · rename_i item hc
      obtain rfl := Option.some.inj h
      exact .leaveDequeue hc
    · cases h

end Cases

/-- Where a consumer is in all three components. -/
structure Place (δ : Type*) where
  outer : Consumer δ
  waiter : LightweightSemaphore.Waiter
  inner : ProducerQueue.Consumer δ

def State.place (s : State κ δ) (c : κ) : Place δ :=
  ⟨s.consumer c, s.sema.waiter c, s.inner.consumer c⟩

/-- The consumer has a permit and no index for it yet. -/
def Place.permit (p : Place δ) : ℕ :=
  match p.outer with
  | .waiting => p.waiter.granted
  | .trying => 1
  | .dequeuing => 1 - p.inner.taken
  | .idle | .returned _ => 0

/-- The consumer is inside the component that it is waiting for, and in no other. -/
def Place.Coherent (p : Place δ) : Prop :=
  match p.outer with
  | .idle | .trying | .returned _ => p.waiter = .idle ∧ p.inner = .idle
  | .waiting => p.waiter ≠ .idle ∧ p.inner = .idle
  | .dequeuing => p.waiter = .idle ∧ p.inner ≠ .idle

def owed : Producer → ProducerQueue.Producer δ → ℕ
  | .enqueuing, .returned true | .signalling, _ => 1
  | _, _ => 0

def Coherent (p : Producer) (inner : ProducerQueue.Producer δ) (toRelease : ℕ) : Prop :=
  match p with
  | .enqueuing => inner ≠ .idle ∧ toRelease = 0
  | .releasing => inner = .idle ∧ 0 < toRelease
  | _ => inner = .idle ∧ toRelease = 0

/-- Each element is signalled after it is published, and each index is taken with a permit. -/
structure Ledger [Fintype κ] (s : State κ δ) : Prop where
  published : s.sema.signalled + owed s.producer s.inner.producer = s.inner.tailIndex
  taken : s.inner.headIndex + total Place.permit s.place = s.sema.acquired
  balanced : LightweightSemaphore.Balanced 0 s.sema.books
  direct : ∀ c, s.sema.timed c = false ∧ (s.sema.waiter c).Direct
  inside : ∀ c, (s.place c).Coherent
  producing : Coherent s.producer s.inner.producer (s.sema.toRelease ())

namespace Ledger
variable [Fintype κ] {s t : State κ δ}

theorem start : Ledger (State.start : State κ δ) where
  published := rfl
  taken := by
    have hzero : total Place.permit (State.start : State κ δ).place = 0 :=
      total_eq_zero fun _ => rfl
    rw [hzero]
    rfl
  balanced := LightweightSemaphore.balanced_start 0
  direct c := ⟨rfl, trivial⟩
  inside c := ⟨rfl, rfl⟩
  producing := ⟨rfl, rfl⟩

theorem permits_le (h : Ledger s) :
    s.inner.headIndex + total Place.permit s.place ≤ s.inner.tailIndex := by
  obtain ⟨hpermits, hkernel⟩ := h.balanced
  have hpublished := h.published
  have htaken := h.taken
  simp only [LightweightSemaphore.State.books] at hpermits hkernel
  omega

theorem commits_le (h : Ledger s) :
    s.inner.headIndex + total ProducerQueue.Consumer.commits s.inner.consumer ≤
      s.inner.tailIndex := by
  refine le_trans (Nat.add_le_add_left ?_ _) h.permits_le
  apply Finset.sum_le_sum
  intro c _
  have hinside := h.inside c
  simp only [State.place, Place.Coherent, Place.permit] at hinside ⊢
  cases hc : s.inner.consumer c with
  | committed =>
    rw [hc] at hinside
    cases ho : s.consumer c with
    | dequeuing => exact le_rfl
    | _ =>
      rw [ho] at hinside
      cases hinside.2
  | _ => exact Nat.zero_le _

variable [DecidableEq κ]

theorem consume (h : Ledger s) {c : κ} (hproducer : t.producer = s.producer)
    (hinner : t.inner.producer = s.inner.producer)
    (htail : t.inner.tailIndex = s.inner.tailIndex) (hsignal : t.sema.signalled = s.sema.signalled)
    (hrelease : t.sema.toRelease = s.sema.toRelease)
    (htimed : ∀ j, j ≠ c → t.sema.timed j = s.sema.timed j)
    (hplace : ∀ j, j ≠ c → t.place j = s.place j)
    (hpermit : t.inner.headIndex + (t.place c).permit + s.sema.acquired =
      s.inner.headIndex + (s.place c).permit + t.sema.acquired)
    (hbalanced : LightweightSemaphore.Balanced 0 t.sema.books)
    (hdirect : t.sema.timed c = false ∧ (t.sema.waiter c).Direct)
    (hinside : (t.place c).Coherent) : Ledger t where
  published := by rw [hproducer, hinner, htail, hsignal, h.published]
  taken := by
    have htotal := total_of_ne Place.permit hplace
    have htaken := h.taken
    omega
  balanced := hbalanced
  direct j := by
    by_cases hj : j = c
    · exact hj ▸ hdirect
    · have hwaiter : t.sema.waiter j = s.sema.waiter j := congrArg Place.waiter (hplace j hj)
      rw [htimed j hj, hwaiter]
      exact h.direct j
  inside j := by
    by_cases hj : j = c
    · exact hj ▸ hinside
    · exact (hplace j hj).symm ▸ h.inside j
  producing := by
    rw [hproducer, hinner, hrelease]
    exact h.producing

omit [DecidableEq κ] in
theorem produce (h : Ledger s)
    (hpublished : t.sema.signalled + owed t.producer t.inner.producer = t.inner.tailIndex)
    (hhead : t.inner.headIndex = s.inner.headIndex) (hacquired : t.sema.acquired = s.sema.acquired)
    (htimed : t.sema.timed = s.sema.timed) (hplace : t.place = s.place)
    (hbalanced : LightweightSemaphore.Balanced 0 t.sema.books)
    (hproducing : Coherent t.producer t.inner.producer (t.sema.toRelease ())) : Ledger t where
  published := hpublished
  taken := by rw [hhead, hplace, hacquired, h.taken]
  balanced := hbalanced
  direct c := by
    have hwaiter : t.sema.waiter c = s.sema.waiter c := congrArg Place.waiter (congrFun hplace c)
    rw [htimed, hwaiter]
    exact h.direct c
  inside c := by
    rw [hplace]
    exact h.inside c
  producing := hproducing

theorem step {width : ℕ} (h : Ledger s) {e : Event κ δ}
    (he : BlockingQueue.step width s e = some t) : Ledger t := by
  have hpublished := h.published
  have hproducing := h.producing
  cases step_cases he with
  | @enqueue x allocated inner hp hinner =>
    rw [hp] at hpublished hproducing
    cases ProducerQueue.step_cases hinner with
    | enqueue hidle =>
      refine h.produce ?_ rfl rfl rfl rfl h.balanced ⟨?_, hproducing.2⟩
      · cases hok : s.inner.refused width allocated <;> exact hpublished
      · cases hok : s.inner.refused width allocated <;> simp
  | construct hp hinner =>
    rw [hp] at hpublished hproducing
    cases ProducerQueue.step_cases hinner with
    | construct hx =>
      rw [hx] at hpublished
      refine h.produce ?_ rfl rfl rfl rfl h.balanced ?_
      · rw [hp]
        exact hpublished
      · rw [hp]
        exact ⟨by simp, hproducing.2⟩
  | publish hp hinner =>
    rw [hp] at hpublished hproducing
    cases ProducerQueue.step_cases hinner with
    | publish hx =>
      rw [hx] at hpublished
      refine h.produce ?_ rfl rfl rfl rfl h.balanced ?_
      · rw [hp]
        exact congrArg (· + 1) hpublished
      · rw [hp]
        exact ⟨by simp, hproducing.2⟩
  | @enqueued ok inner hp hok hinner =>
    rw [hp, hok] at hpublished
    rw [hp] at hproducing
    cases ProducerQueue.step_cases hinner with
    | leaveEnqueue =>
      refine h.produce ?_ rfl rfl rfl rfl h.balanced ?_
      · cases ok <;> exact hpublished
      · cases ok <;> exact ⟨rfl, hproducing.2⟩
  | signal hp hsema =>
    rw [hp] at hpublished hproducing
    have hbalanced := h.balanced.move (LightweightSemaphore.move_of_step hsema)
    cases LightweightSemaphore.step_cases hsema with
    | signal hzero =>
      refine h.produce ?_ rfl rfl rfl rfl hbalanced ?_
      · dsimp only
        split <;> exact hpublished
      · dsimp only
        split
        · exact ⟨hproducing.1, by assumption⟩
        · exact ⟨hproducing.1, by omega⟩
  | release hp hsema =>
    rw [hp] at hpublished hproducing
    have hbalanced := h.balanced.move (LightweightSemaphore.move_of_step hsema)
    cases LightweightSemaphore.step_cases hsema with
    | release hpos =>
      exact h.produce hpublished rfl rfl rfl rfl hbalanced ⟨hproducing.1, by simp⟩
  | leaveEnqueue hp =>
    rw [hp] at hpublished hproducing
    exact h.produce hpublished rfl rfl rfl rfl h.balanced hproducing
  | @wait c sema hc hsema =>
    have hinside := h.inside c
    rw [State.place, hc] at hinside
    have hbalanced := h.balanced.move (LightweightSemaphore.move_of_step hsema)
    cases LightweightSemaphore.step_cases hsema with
    | wait hidle =>
      refine h.consume (c := c) rfl rfl rfl rfl rfl (fun j hj => Function.update_of_ne hj _ _)
        (fun j hj => ?_) ?_ hbalanced ⟨Function.update_self .., ?_⟩ ?_
      · simp [State.place, State.goto, LightweightSemaphore.State.goto, hj]
      · simp [State.place, State.goto, LightweightSemaphore.State.goto, Place.permit, hc,
          LightweightSemaphore.Waiter.granted]
      · simp [State.goto, LightweightSemaphore.State.goto, LightweightSemaphore.Waiter.Direct]
      · simpa [State.place, State.goto, LightweightSemaphore.State.goto, Place.Coherent] using
          hinside.2
  | @waiting c weak sema hc hsema =>
    have hinside := h.inside c
    rw [State.place, hc] at hinside
    have hbalanced := h.balanced.move (LightweightSemaphore.move_of_step hsema)
    cases LightweightSemaphore.step_cases hsema with
    | advance ha =>
      obtain ⟨hgranted, hne, htimed, hrelease, hsignal, hin, hdirect⟩ := ha.frame
      obtain ⟨huntimed, hd⟩ := h.direct c
      refine h.consume (c := c) rfl rfl rfl hsignal hrelease (fun j _ => congrFun htimed j)
        (fun j hj => ?_) ?_ hbalanced ⟨(congrFun htimed c).trans huntimed, hdirect huntimed hd⟩ ?_
      · rw [State.place, State.place, hne j hj]
      · simp only [State.place, Place.permit, hc]
        omega
      · rw [State.place, hc]
        exact ⟨hin, hinside.2⟩
  | @granted c weak sema hc hsema =>
    have hinside := h.inside c
    rw [State.place, hc] at hinside
    have hbalanced := h.balanced.move (LightweightSemaphore.move_of_step hsema)
    cases LightweightSemaphore.step_cases hsema with
    | @leave c acquired hw =>
      obtain ⟨huntimed, hd⟩ := h.direct c
      refine h.consume (c := c) rfl rfl rfl rfl rfl (fun j _ => rfl) (fun j hj => ?_) ?_ hbalanced
        ⟨huntimed, ?_⟩ ?_
      · simp [State.place, State.goto, LightweightSemaphore.State.goto, hj]
      · -- without a timeout `wait` returns with a permit
        rw [hw] at hd
        cases acquired with
        | true =>
          simp [State.place, State.goto, LightweightSemaphore.State.goto, Place.permit, hc, hw,
            LightweightSemaphore.Waiter.granted]
        | false => cases hd
      · simp [State.goto, LightweightSemaphore.State.goto, LightweightSemaphore.Waiter.Direct]
      · simpa [State.place, State.goto, LightweightSemaphore.State.goto, Place.Coherent] using
          hinside.2
  | @tryDequeue c weak inner hc hinner =>
    have hinside := h.inside c
    rw [State.place, hc] at hinside
    cases ProducerQueue.step_cases hinner with
    | tryDequeue hidle =>
      refine h.consume (c := c) rfl rfl rfl rfl rfl (fun j _ => rfl) (fun j hj => ?_) ?_
        h.balanced (h.direct c) ?_
      · simp [State.place, State.goto, ProducerQueue.State.goto, hj]
      · simp [State.place, State.goto, ProducerQueue.State.goto, Place.permit, hc,
          ProducerQueue.Consumer.taken]
      · simpa [State.place, State.goto, ProducerQueue.State.goto, Place.Coherent] using hinside.1
  | @dequeuing c weak inner hc hinner =>
    have hinside := h.inside c
    rw [State.place, hc] at hinside
    cases ProducerQueue.step_cases hinner with
    | advance ha =>
      obtain ⟨htaken, hne, hin, htail, henqueued, hproducer⟩ := ha.frame
      refine h.consume (c := c) rfl hproducer htail rfl rfl (fun j _ => rfl) (fun j hj => ?_) ?_
        h.balanced (h.direct c) ?_
      · rw [State.place, State.place, hne j hj]
      · have hs := (s.inner.consumer c).taken_le
        have ht := (inner.consumer c).taken_le
        simp only [State.place, Place.permit, hc]
        omega
      · rw [State.place, hc]
        exact ⟨hinside.1, hin⟩
  | @found c weak item inner hc hitem hinner =>
    have hinside := h.inside c
    rw [State.place, hc] at hinside
    cases ProducerQueue.step_cases hinner with
    | leave =>
      refine h.consume (c := c) rfl rfl rfl rfl rfl (fun j _ => rfl) (fun j hj => ?_) ?_
        h.balanced (h.direct c) ?_
      · simp [State.place, State.goto, ProducerQueue.State.goto, hj]
      · simp [State.place, State.goto, ProducerQueue.State.goto, Place.permit, hc, hitem,
          ProducerQueue.Consumer.taken]
      · simpa [State.place, State.goto, ProducerQueue.State.goto, Place.Coherent] using hinside.1
  | @missed c weak inner hc hnone hinner =>
    have hinside := h.inside c
    rw [State.place, hc] at hinside
    cases ProducerQueue.step_cases hinner with
    | leave =>
      refine h.consume (c := c) rfl rfl rfl rfl rfl (fun j _ => rfl) (fun j hj => ?_) ?_
        h.balanced (h.direct c) ?_
      · simp [State.place, State.goto, ProducerQueue.State.goto, hj]
      · simp [State.place, State.goto, ProducerQueue.State.goto, Place.permit, hc, hnone,
          ProducerQueue.Consumer.taken]
      · simpa [State.place, State.goto, ProducerQueue.State.goto, Place.Coherent] using hinside.1
  | @leaveDequeue c item hc =>
    have hinside := h.inside c
    rw [State.place, hc] at hinside
    refine h.consume (c := c) rfl rfl rfl rfl rfl (fun j _ => rfl) (fun j hj => ?_) ?_
      h.balanced (h.direct c) ?_
    · simp [State.place, State.goto, hj]
    · simp [State.place, State.goto, Place.permit, hc]
    · simpa [State.place, State.goto, Place.Coherent] using hinside

end Ledger

end BlockingQueue
end PyCtp
