import PyCtp.BlockingQueueRuns

/-!
# Progress of the consumer of the recorder's queue

Left alone, a consumer needs a bounded number of steps for each element: the spin loop of the
semaphore ends, a comparison with the counter fails at most once, and no `try_dequeue` fails.
-/
namespace PyCtp
open LabelledRuns Tallies

namespace LightweightSemaphore

/-- The steps that a thread has left in `wait` when nobody else moves, before it returns or
sleeps for good. -/
def Waiter.cost (mCount : ℤ) : Waiter → ℕ
  | .trying oldCount => 2 * spinRounds + 3 + if oldCount ≤ 0 ∨ mCount = oldCount then 0 else 1
  | .spin rounds => 2 * rounds + 2
  | .spinning rounds _ => 2 * rounds + 3
  | .sleeping => 1
  | _ => 0

theorem cost_advance {π κ : Type*} [DecidableEq κ] {s t : State π κ} {c : κ}
    (hdirect : (s.waiter c).Direct) (h : s.advance c false = some t) :
    (t.waiter c).cost t.mCount < (s.waiter c).cost s.mCount := by
  have hgoto : ∀ w, (s.goto c w).waiter c = w := fun w => by
    simp only [State.goto, Function.update_self]
  have htake : (s.take c).waiter c = .returned true := hgoto _
  have hwake : (s.wake c).waiter c = .returned true := hgoto _
  have hsleep : (s.sleep c).waiter c = .sleeping := hgoto _
  rw [State.advance] at h
  cases hc : s.waiter c with
  | trying oldCount =>
    rw [hc] at h
    dsimp only at h
    split at h
    · split at h
      · obtain rfl := Option.some.inj h
        rw [htake]
        simp only [Waiter.cost]
        omega
      · rename_i hpos hchanged
        obtain rfl := Option.some.inj h
        rw [hgoto]
        have hne : ¬(oldCount ≤ 0 ∨ s.mCount = oldCount) := by
          simp only [and_true] at hchanged
          omega
        simp only [Waiter.cost, if_neg hne]
        simp [State.goto]
    · rename_i hnone
      obtain rfl := Option.some.inj h
      rw [hgoto]
      simp only [Waiter.cost]
      omega
  | spin rounds =>
    cases rounds with
    | zero =>
      rw [hc] at h
      dsimp only at h
      split at h
      · obtain rfl := Option.some.inj h
        rw [htake]
        simp [Waiter.cost]
      · obtain rfl := Option.some.inj h
        rw [hsleep]
        simp [Waiter.cost]
    | succ rounds =>
      rw [hc] at h
      obtain rfl := Option.some.inj h
      rw [hgoto]
      simp only [Waiter.cost]
      omega
  | spinning rounds oldCount =>
    rw [hc] at h
    dsimp only at h
    split at h
    · obtain rfl := Option.some.inj h
      rw [htake]
      simp [Waiter.cost]
    · obtain rfl := Option.some.inj h
      rw [hgoto]
      simp only [Waiter.cost]
      omega
  | sleeping =>
    rw [hc] at h
    simp only [Bool.false_eq_true, if_false] at h
    split at h
    · obtain rfl := Option.some.inj h
      rw [hwake]
      simp [Waiter.cost]
    · cases h
  | undo =>
    rw [hc] at hdirect
    cases hdirect
  | undoing oldCount =>
    rw [hc] at hdirect
    cases hdirect
  | idle =>
    rw [hc] at h
    cases h
  | returned acquired =>
    rw [hc] at h
    cases h

end LightweightSemaphore

namespace BlockingQueue

def cycle : ℕ := 2 * LightweightSemaphore.spinRounds + 17

/-- The steps that a consumer has left in `try_dequeue`, with those until it waits again once it
has its index. -/
def tryCost {δ : Type*} : ProducerQueue.Consumer δ → ℕ
  | .sizing _ => 7
  | .starting => 6
  | .loadedTail _ => 5
  | .loadedOvercommit _ _ => 4
  | .entering _ => 3
  | .claimed _ _ => 2
  | .committed | .overcommitted => 1
  | .indexed _ => cycle - 1
  | .returned (some _) => cycle - 2
  | .returned none | .idle => 0

theorem cost_advance {κ δ : Type*} [DecidableEq κ] {width : ℕ} {q r : ProducerQueue.State κ δ}
    {c : κ} (hlt : q.consumer c = .committed → q.headIndex < q.tailIndex)
    (hslot : ∀ i, q.consumer c = .indexed i → q.slots i ≠ none)
    (h : q.advance width c = some r) :
    (r.tailIndex - r.headIndex) * cycle + tryCost (r.consumer c) <
      (q.tailIndex - q.headIndex) * cycle + tryCost (q.consumer c) := by
  have hgoto : ∀ k, (q.goto c k).consumer c = k := fun k => by
    simp only [ProducerQueue.State.goto, Function.update_self]
  rw [ProducerQueue.State.advance] at h
  cases hc : q.consumer c with
  | committed =>
    rw [hc] at h
    obtain rfl := Option.some.inj h
    have hlt := hlt hc
    dsimp only
    rw [hgoto]
    simp only [ProducerQueue.State.goto, tryCost, cycle, LightweightSemaphore.spinRounds]
    omega
  | indexed i =>
    rw [hc] at h
    dsimp only at h
    split at h
    · obtain rfl := Option.some.inj h
      dsimp only
      rw [hgoto]
      simp only [ProducerQueue.State.goto, tryCost, cycle]
      omega
    · rename_i hnone
      exact absurd hnone (hslot i hc)
  | idle =>
    rw [hc] at h
    cases h
  | returned item =>
    rw [hc] at h
    cases h
  | sizing tail =>
    rw [hc] at h
    obtain rfl := Option.some.inj h
    rw [hgoto]
    simp only [ProducerQueue.State.goto]
    split <;> simp only [tryCost] <;> omega
  | loadedOvercommit tail overcommit =>
    rw [hc] at h
    obtain rfl := Option.some.inj h
    rw [hgoto]
    simp only [ProducerQueue.State.goto]
    split <;> simp only [tryCost] <;> omega
  | claimed overcommit myDequeueCount =>
    rw [hc] at h
    obtain rfl := Option.some.inj h
    rw [hgoto]
    simp only [ProducerQueue.State.goto]
    split <;> simp only [tryCost] <;> omega
  | entering overcommit =>
    rw [hc] at h
    obtain rfl := Option.some.inj h
    dsimp only
    rw [hgoto]
    simp only [ProducerQueue.State.goto, tryCost]
    omega
  | overcommitted =>
    rw [hc] at h
    obtain rfl := Option.some.inj h
    dsimp only
    rw [hgoto]
    simp only [ProducerQueue.State.goto, tryCost]
    omega
  | _ =>
    rw [hc] at h
    obtain rfl := Option.some.inj h
    rw [hgoto]
    simp only [ProducerQueue.State.goto, tryCost]
    omega

section OneConsumer
variable {δ : Type*} {width : ℕ}

def stage (s : State Unit δ) : Consumer δ → ℕ
  | .idle => cycle - 4
  | .waiting => 9 + (s.sema.waiter ()).cost s.sema.mCount
  | .trying => 8
  | .dequeuing => tryCost (s.inner.consumer ())
  | .returned _ => cycle - 3

/-- The steps that it has left with the elements there are. -/
def cost (s : State Unit δ) : ℕ :=
  (s.inner.tailIndex - s.inner.headIndex) * cycle + stage s (s.consumer ())

/-- The events of the consumer, but a `compare_exchange_weak` that fails without need. -/
def Event.ofConsumer : Event Unit δ → Prop
  | .waitDequeue _ | .consume _ false | .leaveDequeue _ => True
  | _ => False

theorem cost_of_step {s t : State Unit δ} (hledger : Ledger s)
    (hstorage : ProducerQueue.Storage s.inner) (hsingle : Single s.inner) {e : Event Unit δ}
    (hconsumer : e.ofConsumer) (he : step width s e = some t) : cost t < cost s := by
  have hgoto : ∀ (u : State Unit δ) c k, (u.goto c k).consumer () = k := fun u c k => by
    simp only [State.goto, Function.update_self]
  have hinner : ∀ (q : ProducerQueue.State Unit δ) c k, (q.goto c k).consumer () = k :=
    fun q c k => by simp only [ProducerQueue.State.goto, Function.update_self]
  cases step_cases he with
  | @wait c sema hc hsema =>
    cases LightweightSemaphore.step_cases hsema with
    | wait hidle =>
      rw [cost, cost, hgoto, hc, stage, stage]
      refine Nat.add_lt_add_left ?_ _
      simp only [State.goto, LightweightSemaphore.State.goto, Function.update_self,
        LightweightSemaphore.Waiter.cost, or_true, if_true, cycle]
      omega
  | @waiting c weak sema hc hsema =>
    cases weak with
    | true => cases hconsumer
    | false =>
      have hlt := LightweightSemaphore.cost_advance (hledger.direct c).2 hsema
      rw [cost, cost, hc, stage, stage]
      exact Nat.add_lt_add_left (Nat.add_lt_add_left hlt 9) _
  | @granted c weak sema hc hsema =>
    rw [cost, cost, hgoto, hc, stage, stage]
    refine Nat.add_lt_add_left ?_ _
    omega
  | @tryDequeue c weak inner hc hinner' =>
    cases ProducerQueue.step_cases hinner' with
    | tryDequeue =>
      rw [cost, cost, hgoto, hc, stage, stage]
      refine Nat.add_lt_add_left ?_ _
      dsimp only [State.goto]
      rw [hinner, tryCost]
      omega
  | @dequeuing c weak inner hc hinner' =>
    have hcommits := hledger.commits_le
    have hlt := cost_advance (fun hcommitted => by
        have hone := le_total ProducerQueue.Consumer.commits s.inner.consumer c
        rw [hcommitted, ProducerQueue.Consumer.commits] at hone
        omega)
      (fun i hi hnone => by
        have hheld := hstorage.indexed c i hi
        have hlength := hstorage.length
        rw [hnone, eq_comm, List.getElem?_eq_none_iff] at hheld
        omega) hinner'
    rw [cost, cost, hc, stage, stage]
    exact hlt
  | @found c weak item inner hc hitem hinner' =>
    cases ProducerQueue.step_cases hinner' with
    | leave =>
      rw [cost, cost, hgoto, hc, stage, stage, hitem, tryCost, cycle]
      refine Nat.add_lt_add_left ?_ _
      omega
  | @missed c weak inner hc hnone hinner' =>
    have hready := hsingle.ready
    rw [hnone] at hready
    cases hready
  | @leaveDequeue c item hc =>
    rw [cost, cost, hgoto, hc, stage, stage, cycle]
    refine Nat.add_lt_add_left ?_ _
    omega
  | _ => cases hconsumer

theorem producer_of_step {s t : State Unit δ} {e : Event Unit δ} (hconsumer : e.ofConsumer)
    (he : step width s e = some t) :
    t.producer = s.producer ∧ t.inner.enqueued = s.inner.enqueued := by
  cases step_cases he with
  | tryDequeue hc hinner =>
    cases ProducerQueue.step_cases hinner with
    | tryDequeue => exact ⟨rfl, rfl⟩
  | dequeuing hc hinner =>
    cases ProducerQueue.step_cases hinner with
    | advance ha =>
      obtain ⟨-, -, -, -, henqueued, -⟩ := ha.frame
      exact ⟨rfl, henqueued⟩
  | found hc hitem hinner =>
    cases ProducerQueue.step_cases hinner with
    | leave => exact ⟨rfl, rfl⟩
  | missed hc hnone hinner =>
    cases ProducerQueue.step_cases hinner with
    | leave => exact ⟨rfl, rfl⟩
  | wait => exact ⟨rfl, rfl⟩
  | waiting => exact ⟨rfl, rfl⟩
  | granted => exact ⟨rfl, rfl⟩
  | leaveDequeue => exact ⟨rfl, rfl⟩
  | _ => cases hconsumer

end OneConsumer

section OneProducer
variable {κ δ : Type*} [DecidableEq κ] {width : ℕ} {s t : State κ δ}

/-- The steps that the producer has left in `enqueue`. -/
def remaining (s : State κ δ) : ℕ :=
  match s.producer with
  | .enqueuing =>
    match s.inner.producer with
    | .returned _ => 4
    | .publishing _ => 5
    | _ => 6
  | .signalling => 3
  | .releasing => 2
  | .returned _ => 1
  | .idle => 0

theorem remaining_produce (h : step width s .produce = some t) : remaining t < remaining s := by
  cases step_cases h with
  | construct hp hinner =>
    cases ProducerQueue.step_cases hinner with
    | construct hx => simp [remaining, hp, hx]
  | publish hp hinner =>
    cases ProducerQueue.step_cases hinner with
    | publish hx => simp [remaining, hp, hx]
  | @enqueued ok inner hp hok hinner =>
    cases ok <;> simp [remaining, hp, hok]
  | @signal sema hp hsema =>
    by_cases hr : sema.toRelease () > 0 <;> simp [remaining, hp, hr]
  | release hp hsema => simp [remaining, hp]

theorem remaining_leaveEnqueue (h : step width s .leaveEnqueue = some t) :
    remaining t < remaining s := by
  cases step_cases h with
  | leaveEnqueue hp => simp [remaining, hp]

end OneProducer

end BlockingQueue
end PyCtp
