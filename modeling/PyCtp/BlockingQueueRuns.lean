import PyCtp.BlockingQueue

/-!
# Runs of the recorder's queue

With a permit for every index, no test on the counters of the inner queue has to be trusted:
whatever consumers do, there is an element for each of them. With one consumer the tests never
fail, and the elements come out in the order in which they went in.
-/
namespace PyCtp
open LabelledRuns Tallies

namespace BlockingQueue
variable {κ δ : Type*} [DecidableEq κ] {width : ℕ} {s t : State κ δ}

theorem inner_of_step {e : Event κ δ} (h : step width s e = some t) :
    t.inner = s.inner ∨ ∃ e, ProducerQueue.step width s.inner e = some t.inner := by
  cases step_cases h with
  | enqueue hp hinner => exact .inr ⟨_, hinner⟩
  | construct hp hinner => exact .inr ⟨_, hinner⟩
  | publish hp hinner => exact .inr ⟨_, hinner⟩
  | enqueued hp hok hinner => exact .inr ⟨_, hinner⟩
  | tryDequeue hc hinner => exact .inr ⟨_, hinner⟩
  | dequeuing hc hinner => exact .inr ⟨_, hinner⟩
  | found hc hitem hinner => exact .inr ⟨_, hinner⟩
  | missed hc hnone hinner => exact .inr ⟨_, hinner⟩
  | _ => exact .inl rfl

theorem exists_produce [Fintype κ] (h : Ledger s) (hidle : s.producer ≠ .idle)
    (hreturned : ∀ ok, s.producer ≠ .returned ok) : ∃ t, step width s .produce = some t := by
  have hproducing := h.producing
  simp only [step, State.produce]
  cases hp : s.producer with
  | enqueuing =>
    rw [hp] at hproducing
    cases hi : s.inner.producer with
    | idle => exact absurd hi hproducing.1
    | _ => exact ⟨_, by simp only [State.onInner, ProducerQueue.step, hi]; rfl⟩
  | signalling =>
    rw [hp] at hproducing
    exact ⟨_, by simp only [State.onSema, LightweightSemaphore.step, hproducing.2]; rfl⟩
  | releasing =>
    rw [hp] at hproducing
    exact ⟨_, by simp only [State.onSema, LightweightSemaphore.step, hproducing.2]; rfl⟩
  | idle => exact absurd hp hidle
  | returned ok => exact absurd hp (hreturned ok)

/-- A consumer is stuck inside `wait_dequeue` only in the kernel semaphore. -/
theorem exists_consume [Fintype κ] (h : Ledger s) {c : κ} (hidle : s.consumer c ≠ .idle)
    (hreturned : ∀ item, s.consumer c ≠ .returned item) :
    (∃ t, step width s (.consume c false) = some t) ∨
      s.sema.waiter c = .sleeping ∧ s.sema.mSema = 0 := by
  have hinside := h.inside c
  simp only [State.place, Place.Coherent] at hinside
  simp only [step, State.consume]
  cases hc : s.consumer c with
  | idle => exact absurd hc hidle
  | returned item => exact absurd hc (hreturned item)
  | waiting =>
    rw [hc] at hinside
    dsimp only
    split
    · rename_i acquired hw
      exact .inl ⟨_, by simp only [State.onSema, LightweightSemaphore.step, hw]; rfl⟩
    · rename_i hw
      rcases LightweightSemaphore.exists_advance hinside.1 hw with ⟨sema, hsema⟩ | hsleep
      · exact .inl ⟨_, by simp only [State.onSema, LightweightSemaphore.step, hsema]; rfl⟩
      · exact .inr hsleep
  | trying =>
    rw [hc] at hinside
    exact .inl ⟨_, by simp only [State.onInner, ProducerQueue.step, hinside.2]; rfl⟩
  | dequeuing =>
    rw [hc] at hinside
    dsimp only
    split
    · rename_i item hi
      exact .inl ⟨_, by simp only [State.onInner, ProducerQueue.step, hi]; rfl⟩
    · rename_i hi
      exact .inl ⟨_, by simp only [State.onInner, ProducerQueue.step, hi]; rfl⟩
    · rename_i hsome hnone
      obtain ⟨inner, hinner⟩ : ∃ inner, s.inner.advance width c = some inner := by
        refine ProducerQueue.exists_advance hinside.2 fun item hi => ?_
        cases item with
        | none => exact hnone hi
        | some item => exact hsome item hi
      exact .inl ⟨_, by simp only [State.onInner, ProducerQueue.step, hinner]; rfl⟩

theorem Ledger.sleeping_of_stuck [Fintype κ] (h : Ledger s) {c : κ} (hidle : s.consumer c ≠ .idle)
    (hreturned : ∀ item, s.consumer c ≠ .returned item)
    (hstuck : ∀ t, BlockingQueue.step width s (.consume c false) ≠ some t) :
    s.sema.waiter c = .sleeping ∧ s.sema.mSema = 0 := by
  have hstep := @exists_consume κ δ _ width s _ h c hidle hreturned
  rcases hstep with ⟨t, ht⟩ | hsleep
  · exact absurd ht (hstuck t)
  · exact hsleep

omit [DecidableEq κ] in
/-- A consumer that sleeps while no `enqueue` is under way waits for nothing: each element is
taken or has another consumer on its way to it. -/
theorem Ledger.taken_of_sleeping [Fintype κ] (h : Ledger s) {c : κ}
    (hw : s.sema.waiter c = .sleeping) (hsema : s.sema.mSema = 0) (hp : s.producer = .idle) :
    s.inner.headIndex + total Place.permit s.place = s.inner.tailIndex := by
  obtain ⟨hpermits, hkernel⟩ := h.balanced
  have hpublished := h.published
  have htaken := h.taken
  have hproducing := h.producing
  have hwaits := le_total LightweightSemaphore.Waiter.waits s.sema.waiter c
  rw [hp] at hproducing
  have hpending : total id s.sema.toRelease = 0 := total_eq_zero fun _ => hproducing.2
  rw [hw, LightweightSemaphore.Waiter.waits] at hwaits
  rw [hp, owed] at hpublished
  · simp only [LightweightSemaphore.State.books] at hpermits hkernel
    omega
  · simp
  · simp

section Runs
variable [Fintype κ] {es : List (Event κ δ)}

theorem ledger_of_run (hrun : run (step width) .start es = some s) :
    Ledger s ∧ ProducerQueue.Storage s.inner := by
  refine run_invariant (fun s => Ledger s ∧ ProducerQueue.Storage s.inner) ?_
    ⟨.start, ProducerQueue.storage_start⟩ hrun
  rintro s e t ⟨hledger, hstorage⟩ he
  refine ⟨hledger.step he, ?_⟩
  rcases inner_of_step he with hsame | ⟨e, hinner⟩
  · exact hsame ▸ hstorage
  · exact hstorage.step hledger.commits_le hinner

omit [Fintype κ] in
theorem room_of_run (hwidth : 6 ≤ width) (hrun : run (step width) .start es = some s) :
    ProducerQueue.Room width s.inner := by
  refine run_invariant (fun s => ProducerQueue.Room width s.inner) ?_ .start hrun
  intro s e t hroom he
  rcases inner_of_step he with hsame | ⟨e, hinner⟩
  · exact hsame ▸ hroom
  · exact hroom.step hwidth hinner

/-- The counter of the semaphore has no more permits than the queue has elements. -/
theorem inRange_of_run (hwidth : 32 ≤ width) (hthreads : Fintype.card κ < 2 ^ 31)
    (hrun : run (step width) .start es = some s) : s.sema.InRange width := by
  obtain ⟨hledger, -⟩ := ledger_of_run hrun
  have hroom := (room_of_run (by omega) hrun).tailIndex_lt
  have hpublished := hledger.published
  have htaken := hledger.taken
  exact hledger.balanced.inRange hwidth hthreads (by omega)

/-- Whatever the order of the steps of the producer and of all consumers, no slot is read that
holds no element, and no element is received twice or changed. The counter of the semaphore stays in
the range of its 32 bits or more, and there is an element for every consumer past the wait. No
thread is stuck inside a call but a consumer in the kernel semaphore, and then, with no `enqueue`
under way, all elements are taken or have another consumer on its way to them. -/
theorem dequeued_of_run (hwidth : 6 ≤ width) (hrun : run (step width) .start es = some s) :
    s.inner.broken = false ∧ s.inner.tailIndex < s.inner.headIndex + 2 ^ (width - 1) ∧
      (32 ≤ width → Fintype.card κ < 2 ^ 31 → s.sema.InRange width) ∧
      (s.inner.received.map Prod.fst).Nodup ∧
      (∀ r ∈ s.inner.received, s.inner.enqueued[r.1]? = some r.2) ∧
      ((∀ c i, s.inner.consumer c ≠ .indexed i) →
        (s.inner.received.map Prod.snd).Perm (s.inner.enqueued.take s.inner.headIndex)) ∧
      s.inner.headIndex + total Place.permit s.place ≤ s.inner.tailIndex ∧
      (s.producer ≠ .idle → (∀ ok, s.producer ≠ .returned ok) →
        ∃ t, step width s .produce = some t) ∧
      ∀ c, s.consumer c ≠ .idle → (∀ item, s.consumer c ≠ .returned item) →
        (∀ t, step width s (.consume c false) ≠ some t) →
        s.sema.waiter c = .sleeping ∧ s.sema.mSema = 0 ∧
          (s.producer = .idle →
            s.inner.headIndex + total Place.permit s.place = s.inner.tailIndex) := by
  obtain ⟨hledger, hstorage⟩ := ledger_of_run hrun
  have hle := hledger.permits_le
  refine ⟨hstorage.intact, (room_of_run hwidth hrun).tailIndex_lt,
    fun hwide hthreads => inRange_of_run hwide hthreads hrun, hstorage.received_nodup,
    fun r hr => (hstorage.received r hr).2, hstorage.received_perm (by omega), hle,
    exists_produce hledger, fun c hidle hreturned hstuck => ?_⟩
  obtain ⟨hw, hsema⟩ := hledger.sleeping_of_stuck hidle hreturned hstuck
  exact ⟨hw, hsema, hledger.taken_of_sleeping hw hsema⟩

def inflight : ProducerQueue.Producer δ → List δ
  | .constructing x | .publishing x => [x]
  | _ => []

def offered (es : List (Event κ δ)) : List δ :=
  es.filterMap fun
    | .enqueue x _ => some x
    | _ => none

omit [DecidableEq κ] [Fintype κ] in
theorem offered_concat (es : List (Event κ δ)) (e : Event κ δ) :
    offered (es ++ [e]) = offered es ++ offered [e] := List.filterMap_append

omit [Fintype κ] in
theorem enqueued_of_step {e : Event κ δ} (h : step width s e = some t) :
    t.inner.enqueued ++ inflight t.inner.producer =
        s.inner.enqueued ++ inflight s.inner.producer ++ offered [e] ∨
      ∃ x allocated, e = .enqueue x allocated ∧ s.inner.refused width allocated = true ∧
        t.inner.enqueued ++ inflight t.inner.producer =
          s.inner.enqueued ++ inflight s.inner.producer := by
  cases step_cases h with
  | @enqueue x allocated inner hp hinner =>
    cases ProducerQueue.step_cases hinner with
    | enqueue hidle =>
      cases hok : s.inner.refused width allocated with
      | false => exact .inl (by simp [hidle, inflight, offered])
      | true => exact .inr ⟨x, allocated, rfl, hok, by simp [hidle, inflight]⟩
  | construct hp hinner =>
    cases ProducerQueue.step_cases hinner with
    | construct hx => exact .inl (by simp [hx, inflight, offered])
  | publish hp hinner =>
    cases ProducerQueue.step_cases hinner with
    | publish hx => exact .inl (by simp [hx, inflight, offered])
  | enqueued hp hok hinner =>
    cases ProducerQueue.step_cases hinner with
    | leaveEnqueue => exact .inl (by simp [hok, inflight, offered])
  | tryDequeue hc hinner =>
    cases ProducerQueue.step_cases hinner with
    | tryDequeue => exact .inl (by simp [ProducerQueue.State.goto, State.goto, offered])
  | dequeuing hc hinner =>
    cases ProducerQueue.step_cases hinner with
    | advance ha =>
      obtain ⟨-, -, -, -, henqueued, hproducer⟩ := ha.frame
      exact .inl (by simp [henqueued, hproducer, offered])
  | found hc hitem hinner =>
    cases ProducerQueue.step_cases hinner with
    | leave => exact .inl (by simp [ProducerQueue.State.goto, State.goto, offered])
  | missed hc hnone hinner =>
    cases ProducerQueue.step_cases hinner with
    | leave => exact .inl (by simp [ProducerQueue.State.goto, State.goto, offered])
  | _ => exact .inl (by simp [State.goto, offered])

omit [Fintype κ] in
theorem enqueued_sublist (hrun : run (step width) .start es = some s) :
    (s.inner.enqueued ++ inflight s.inner.producer).Sublist (offered es) := by
  refine run_history (fun es s =>
    (s.inner.enqueued ++ inflight s.inner.producer).Sublist (offered es)) (List.Sublist.refl _)
    ?_ hrun
  intro es s e t _ h he
  rw [offered_concat]
  rcases enqueued_of_step he with heq | ⟨x, allocated, -, -, heq⟩
  · rw [heq]
    exact h.append (List.Sublist.refl _)
  · rw [heq]
    exact h.trans (List.sublist_append_left _ _)

/-- Two consumers past the wait, one element taken and the other one still in its slot. -/
theorem dequeued_of_run_two : ∃ s : State (Fin 2) ℕ,
    run (step 64) .start ([.enqueue 7 true, .produce, .produce, .produce, .produce, .leaveEnqueue,
        .enqueue 8 true, .produce, .produce, .produce, .produce, .waitDequeue 0, .waitDequeue 1] ++
      [0, 1, 0, 1, 1, 1, 1, 1, 1, 1, 1, 1, 1, 1].map (.consume · false)) = some s ∧
    s.inner.broken = false ∧
    s.inner.headIndex + total Place.permit s.place ≤ s.inner.tailIndex := by
  obtain ⟨s, hs⟩ := Option.isSome_iff_exists.mp (show
    (run (step 64) (.start : State (Fin 2) ℕ)
      ([.enqueue 7 true, .produce, .produce, .produce, .produce, .leaveEnqueue,
        .enqueue 8 true, .produce, .produce, .produce, .produce, .waitDequeue 0, .waitDequeue 1] ++
      [0, 1, 0, 1, 1, 1, 1, 1, 1, 1, 1, 1, 1, 1].map (.consume · false))).isSome by decide)
  obtain ⟨hintact, -, -, -, -, -, hle, -⟩ := dequeued_of_run (by decide) hs
  exact ⟨s, hs, hintact, hle⟩

end Runs

section OneConsumer
open ProducerQueue (circularLessThan circularLessThan_of_lt)
variable {δ : Type*} {width : ℕ}

/-- What a single consumer knows on its way to an element. -/
def Ready (q : ProducerQueue.State Unit δ) : ProducerQueue.Consumer δ → Prop
  | .sizing tail | .loadedTail tail => q.headIndex < tail ∧ tail ≤ q.tailIndex
  | .loadedOvercommit tail o => (q.headIndex < tail ∧ tail ≤ q.tailIndex) ∧ o = 0
  | .entering o => o = 0
  | .claimed o d => o = 0 ∧ d = q.headIndex
  | .indexed i => i + 1 = q.headIndex
  | .returned (some x) => ∃ i, i + 1 = q.headIndex ∧ q.enqueued[i]? = some x
  | .overcommitted | .returned none => False
  | .idle | .starting | .committed => True

def reading : ProducerQueue.Consumer δ → ℕ
  | .indexed _ => 1
  | _ => 0

/-- The inner queue with one consumer that does not start without an element for it. -/
structure Single (q : ProducerQueue.State Unit δ) : Prop where
  overcommit : q.dequeueOvercommit = 0
  optimistic : q.dequeueOptimisticCount =
    q.headIndex + (q.consumer ()).claims + (q.consumer ()).commits
  ready : Ready q (q.consumer ())
  order : q.received.map Prod.fst = List.range (q.headIndex - reading (q.consumer ()))

theorem Single.start : Single (.start : ProducerQueue.State Unit δ) := ⟨rfl, rfl, trivial, rfl⟩

theorem Single.goto {q : ProducerQueue.State Unit δ} (h : Single q)
    {k : ProducerQueue.Consumer δ}
    (hcount : k.claims + k.commits = (q.consumer ()).claims + (q.consumer ()).commits)
    (hready : Ready q k) (hreading : reading k = reading (q.consumer ())) :
    Single (q.goto () k) where
  overcommit := h.overcommit
  optimistic := by
    have hopt := h.optimistic
    simp only [ProducerQueue.State.goto, Function.update_self]
    omega
  ready := by
    simp only [ProducerQueue.State.goto, Function.update_self]
    exact hready
  order := by
    simp only [ProducerQueue.State.goto, Function.update_self]
    rw [hreading]
    exact h.order

/-- The tests on the counters succeed, and each step brings the consumer closer to the next
element. -/
theorem Single.advance {q r : ProducerQueue.State Unit δ} (hwidth : 0 < width) (h : Single q)
    (hroom : q.tailIndex < q.headIndex + 2 ^ (width - 1)) (hle : q.headIndex ≤ q.tailIndex)
    (hlt : (q.consumer ()).taken = 0 → q.headIndex < q.tailIndex)
    (hstorage : ProducerQueue.Storage q) (he : q.advance width () = some r) : Single r := by
  have htest : ∀ tail : ℕ, q.headIndex < tail → tail ≤ q.tailIndex →
      circularLessThan width q.headIndex tail = true := by
    intro tail hlow hhigh
    apply circularLessThan_of_lt hwidth
    · exact_mod_cast hlow
    · exact_mod_cast hhigh.trans_lt hroom
  have hready := h.ready
  have hopt := h.optimistic
  have horder := h.order
  rw [ProducerQueue.State.advance] at he
  cases hc : q.consumer () with
  | sizing tail =>
    rw [hc] at he hready
    dsimp only at he
    rw [if_pos (htest tail hready.1 hready.2)] at he
    obtain rfl := Option.some.inj he
    exact h.goto (by rw [hc]; rfl) trivial (by rw [hc]; rfl)
  | starting =>
    rw [hc] at he
    obtain rfl := Option.some.inj he
    exact h.goto (by rw [hc]; rfl) ⟨hlt (by rw [hc]; rfl), le_rfl⟩ (by rw [hc]; rfl)
  | loadedTail tail =>
    rw [hc] at he hready
    obtain rfl := Option.some.inj he
    exact h.goto (by rw [hc]; rfl) ⟨hready, h.overcommit⟩ (by rw [hc]; rfl)
  | loadedOvercommit tail o =>
    rw [hc] at he hready hopt
    obtain ⟨⟨hlow, hhigh⟩, rfl⟩ := hready
    have hgood := htest tail hlow hhigh
    rw [show q.headIndex = q.dequeueOptimisticCount from hopt.symm] at hgood
    dsimp only at he
    rw [Nat.cast_zero, sub_zero, if_pos hgood] at he
    obtain rfl := Option.some.inj he
    exact h.goto (by rw [hc]; rfl) rfl (by rw [hc]; rfl)
  | entering o =>
    rw [hc] at he hready hopt horder
    obtain rfl := Option.some.inj he
    refine ⟨h.overcommit, ?_, ?_, ?_⟩
    · simp only [ProducerQueue.State.goto, Function.update_self]
      exact congrArg (· + 1) hopt
    · simp only [ProducerQueue.State.goto, Function.update_self]
      exact ⟨hready, hopt⟩
    · simp only [ProducerQueue.State.goto, Function.update_self]
      exact horder
  | claimed o d =>
    rw [hc] at he hready
    obtain ⟨rfl, rfl⟩ := hready
    dsimp only at he
    rw [Nat.cast_zero, sub_zero, if_pos (htest _ (hlt (by rw [hc]; rfl)) le_rfl)] at he
    obtain rfl := Option.some.inj he
    exact h.goto (by rw [hc]; rfl) trivial (by rw [hc]; rfl)
  | committed =>
    rw [hc] at he hopt horder
    obtain rfl := Option.some.inj he
    refine ⟨h.overcommit, ?_, ?_, ?_⟩
    · simp only [ProducerQueue.State.goto, Function.update_self]
      exact hopt
    · simp only [ProducerQueue.State.goto, Function.update_self]
      rfl
    · simp only [ProducerQueue.State.goto, Function.update_self]
      exact horder
  | overcommitted =>
    rw [hc] at hready
    cases hready
  | indexed i =>
    rw [hc] at he hready hopt horder
    obtain ⟨hi, hslot⟩ := hstorage.indexed () i hc
    dsimp only at he
    split at he
    · rename_i x hx
      obtain rfl := Option.some.inj he
      refine ⟨h.overcommit, ?_, ?_, ?_⟩
      · simp only [ProducerQueue.State.goto, Function.update_self]
        exact hopt
      · simp only [ProducerQueue.State.goto, Function.update_self]
        exact ⟨i, hready, hslot.symm.trans hx⟩
      · simp only [ProducerQueue.State.goto, Function.update_self]
        rw [List.map_append, horder, List.map_singleton, ← hready]
        exact List.range_succ.symm
    · rename_i hnone
      have hlen := hstorage.length
      rw [hnone, eq_comm, List.getElem?_eq_none_iff] at hslot
      omega
  | idle =>
    rw [hc] at he
    cases he
  | returned item =>
    rw [hc] at he
    cases he

theorem Single.produce {q r : ProducerQueue.State Unit δ} (h : Single q)
    (hover : r.dequeueOvercommit = q.dequeueOvercommit)
    (hopt : r.dequeueOptimisticCount = q.dequeueOptimisticCount)
    (hhead : r.headIndex = q.headIndex) (hconsumer : r.consumer = q.consumer)
    (hreceived : r.received = q.received) (htail : q.tailIndex ≤ r.tailIndex)
    (henqueued : q.enqueued <+: r.enqueued) : Single r where
  overcommit := hover.trans h.overcommit
  optimistic := by rw [hopt, hhead, hconsumer, h.optimistic]
  ready := by
    have hready := h.ready
    rw [hconsumer]
    cases hc : q.consumer () with
    | sizing tail =>
      rw [hc] at hready
      exact ⟨hhead ▸ hready.1, hready.2.trans htail⟩
    | loadedTail tail =>
      rw [hc] at hready
      exact ⟨hhead ▸ hready.1, hready.2.trans htail⟩
    | loadedOvercommit tail o =>
      rw [hc] at hready
      exact ⟨⟨hhead ▸ hready.1.1, hready.1.2.trans htail⟩, hready.2⟩
    | claimed o d =>
      rw [hc] at hready
      exact ⟨hready.1, hhead ▸ hready.2⟩
    | indexed i =>
      rw [hc] at hready
      exact hready.trans hhead.symm
    | returned item =>
      rw [hc] at hready
      cases item with
      | none => exact hready
      | some x =>
        obtain ⟨i, hi, hx⟩ := hready
        obtain ⟨hlt, rfl⟩ := List.getElem?_eq_some_iff.mp hx
        exact ⟨i, hi.trans hhead.symm, List.prefix_iff_getElem?.mp henqueued i hlt⟩
    | _ =>
      rw [hc] at hready
      exact hready
  order := by rw [hreceived, hhead, hconsumer, h.order]

theorem Ledger.lt_of_permit {s : State Unit δ} (h : Ledger s) (hpermit : (s.place ()).permit = 1) :
    s.inner.headIndex < s.inner.tailIndex := by
  have hle := h.permits_le
  have hone := le_total Place.permit s.place ()
  omega

theorem Single.step {s t : State Unit δ} (hwidth : 0 < width) (h : Single s.inner)
    (hledger : Ledger s) (hroom : s.inner.tailIndex < s.inner.headIndex + 2 ^ (width - 1))
    (hstorage : ProducerQueue.Storage s.inner) {e : Event Unit δ}
    (he : BlockingQueue.step width s e = some t) : Single t.inner := by
  cases step_cases he with
  | enqueue hp hinner =>
    cases ProducerQueue.step_cases hinner with
    | enqueue => exact h.produce rfl rfl rfl rfl rfl le_rfl (List.prefix_refl _)
  | construct hp hinner =>
    cases ProducerQueue.step_cases hinner with
    | construct => exact h.produce rfl rfl rfl rfl rfl le_rfl (List.prefix_refl _)
  | publish hp hinner =>
    cases ProducerQueue.step_cases hinner with
    | publish => exact h.produce rfl rfl rfl rfl rfl (Nat.le_succ _) (List.prefix_append _ _)
  | enqueued hp hok hinner =>
    cases ProducerQueue.step_cases hinner with
    | leaveEnqueue => exact h.produce rfl rfl rfl rfl rfl le_rfl (List.prefix_refl _)
  | @tryDequeue c weak inner hc hinner =>
    cases ProducerQueue.step_cases hinner with
    | tryDequeue hidle =>
      have hlt := hledger.lt_of_permit (by simp only [State.place, Place.permit, hc])
      exact h.goto (by rw [hidle]; rfl) ⟨hlt, le_rfl⟩ (by rw [hidle]; rfl)
  | @dequeuing c weak inner hc hinner =>
    refine h.advance hwidth hroom ?_ (fun htaken => ?_) hstorage hinner
    · exact (Nat.le_add_right _ _).trans hledger.permits_le
    · exact hledger.lt_of_permit (by simp only [State.place, Place.permit, hc, htaken])
  | found hc hitem hinner =>
    cases ProducerQueue.step_cases hinner with
    | leave => exact h.goto (by rw [hitem]; rfl) trivial (by rw [hitem]; rfl)
  | missed hc hnone hinner =>
    cases ProducerQueue.step_cases hinner with
    | leave => exact h.goto (by rw [hnone]; rfl) trivial (by rw [hnone]; rfl)
  | _ => exact h

theorem single_of_run {es : List (Event Unit δ)} {s : State Unit δ} (hwidth : 6 ≤ width)
    (hrun : run (step width) .start es = some s) : Single s.inner := by
  refine run_history (fun _ s => Single s.inner) .start ?_ hrun
  intro es s e t hrun h he
  obtain ⟨hledger, hstorage⟩ := ledger_of_run hrun
  exact h.step (by omega) hledger (room_of_run hwidth hrun).tailIndex_lt hstorage he

def pending (s : State Unit δ) : List δ :=
  match s.consumer () with
  | .returned x => [x]
  | .dequeuing => (s.inner.consumer ()).items
  | _ => []

def handed (s : State Unit δ) : Event Unit δ → List δ
  | .leaveDequeue _ =>
    match s.consumer () with
    | .returned x => [x]
    | _ => []
  | _ => []

theorem received_of_step {s t : State Unit δ} {e : Event Unit δ} {xs : List δ}
    (h : s.inner.received.map Prod.snd = xs ++ pending s)
    (he : BlockingQueue.step width s e = some t) :
    t.inner.received.map Prod.snd = xs ++ handed s e ++ pending t := by
  have hquiet : handed s e = [] → t.inner.received = s.inner.received → pending t = pending s →
      t.inner.received.map Prod.snd = xs ++ handed s e ++ pending t := by
    intro hhanded hreceived hpending
    rw [hhanded, hreceived, hpending, List.append_nil, h]
  cases step_cases he with
  | enqueue hp hinner =>
    cases ProducerQueue.step_cases hinner with
    | enqueue => exact hquiet rfl rfl rfl
  | construct hp hinner =>
    cases ProducerQueue.step_cases hinner with
    | construct => exact hquiet rfl rfl rfl
  | publish hp hinner =>
    cases ProducerQueue.step_cases hinner with
    | publish => exact hquiet rfl rfl rfl
  | enqueued hp hok hinner =>
    cases ProducerQueue.step_cases hinner with
    | leaveEnqueue => exact hquiet rfl rfl rfl
  | @tryDequeue c weak inner hc hinner =>
    cases ProducerQueue.step_cases hinner with
    | tryDequeue =>
      exact hquiet rfl rfl (by simp [pending, hc, State.goto, ProducerQueue.State.goto,
        ProducerQueue.Consumer.items])
  | @dequeuing c weak inner hc hinner =>
    cases ProducerQueue.step_cases hinner with
    | advance ha =>
      obtain ⟨hnone, hitems⟩ := ha.items
      rw [pending, hc, hnone, List.append_nil] at h
      dsimp only [handed, pending]
      rw [hc, hitems, h, List.append_nil]
  | found hc hitem hinner =>
    cases ProducerQueue.step_cases hinner with
    | leave =>
      exact hquiet rfl rfl (by simp [pending, hc, hitem, State.goto, ProducerQueue.State.goto,
        ProducerQueue.Consumer.items])
  | missed hc hnone hinner =>
    cases ProducerQueue.step_cases hinner with
    | leave =>
      exact hquiet rfl rfl (by simp [pending, hc, hnone, State.goto, ProducerQueue.State.goto,
        ProducerQueue.Consumer.items])
  | wait hc => exact hquiet rfl rfl (by simp [pending, hc, State.goto])
  | granted hc => exact hquiet rfl rfl (by simp [pending, hc, State.goto])
  | leaveDequeue hc =>
    rw [pending, hc] at h
    simpa [handed, pending, hc, State.goto] using h
  | _ => exact hquiet rfl rfl rfl

theorem received_of_stuck {es : List (Event Unit δ)} {s : State Unit δ} (hwidth : 6 ≤ width)
    (hrun : run (step width) .start es = some s) (hidle : s.consumer () ≠ .idle)
    (hreturned : ∀ x, s.consumer () ≠ .returned x)
    (hstuck : ∀ t, step width s (.consume () false) ≠ some t) (hp : s.producer = .idle) :
    s.consumer () = .waiting ∧ s.inner.received.map Prod.snd = s.inner.enqueued := by
  obtain ⟨hledger, hstorage⟩ := ledger_of_run hrun
  have hle := hledger.permits_le
  have hreceived := hstorage.received_take (by omega) (single_of_run hwidth hrun).order
  obtain ⟨hw, hsema⟩ := hledger.sleeping_of_stuck hidle hreturned hstuck
  have hall := hledger.taken_of_sleeping hw hsema hp
  have hinside := hledger.inside ()
  simp only [State.place, Place.Coherent, hw] at hinside
  cases hc : s.consumer () with
  | waiting =>
    rw [hc] at hinside
    have hpermit : total Place.permit s.place = 0 := by
      apply total_eq_zero
      intro c
      simp only [State.place, Place.permit, hc, hw, LightweightSemaphore.Waiter.granted]
    have hreading : reading (s.inner.consumer ()) = 0 := by
      rw [hinside.2]
      rfl
    refine ⟨rfl, ?_⟩
    rw [hreceived, hreading]
    apply List.take_of_length_le
    rw [hstorage.length]
    omega
  | _ =>
    rw [hc] at hinside
    cases hinside.1

/-- With one consumer no `try_dequeue` fails, and the elements read so far are the first ones
enqueued, in order. A consumer that cannot go on has received all elements, unless an `enqueue`
is under way. -/
theorem fifo_of_run {es : List (Event Unit δ)} {s : State Unit δ} (hwidth : 6 ≤ width)
    (hrun : run (step width) .start es = some s) :
    s.inner.consumer () ≠ .returned none ∧
      s.inner.received.map Prod.snd = s.inner.enqueued.take s.inner.received.length ∧
      (s.consumer () ≠ .idle → (∀ x, s.consumer () ≠ .returned x) →
        (∀ t, step width s (.consume () false) ≠ some t) → s.producer = .idle →
        s.inner.received.map Prod.snd = s.inner.enqueued) := by
  obtain ⟨hledger, hstorage⟩ := ledger_of_run hrun
  have hsingle := single_of_run hwidth hrun
  have hle := hledger.permits_le
  have horder := hsingle.order
  have hreceived := hstorage.received_take (by omega) horder
  have hlength := congrArg List.length horder
  rw [List.length_map, List.length_range] at hlength
  refine ⟨fun hnone => ?_, hlength ▸ hreceived, fun hidle hreturned hstuck hp =>
    (received_of_stuck hwidth hrun hidle hreturned hstuck hp).2⟩
  have hready := hsingle.ready
  rw [hnone] at hready
  exact hready

def sampleRun : List (Event Unit ℕ) :=
  [.enqueue 7 true, .produce, .produce, .produce, .produce, .leaveEnqueue, .enqueue 8 true,
    .waitDequeue (), .produce, .produce] ++
    List.replicate 12 (.consume () false) ++ [.leaveDequeue ()]

theorem fifo_of_run_sample : ∃ s : State Unit ℕ, run (step 64) .start sampleRun = some s ∧
    s.inner.received.map Prod.snd = [7] ∧ s.inner.consumer () ≠ .returned none := by
  obtain ⟨s, hs⟩ := Option.isSome_iff_exists.mp
    (show (run (step 64) (.start : State Unit ℕ) sampleRun).isSome by decide)
  have hseen : s.inner.received.length = 1 ∧ s.inner.enqueued = [7, 8] := by
    obtain rfl := Option.some.inj hs
    decide
  obtain ⟨htry, horder, -⟩ := fifo_of_run (by decide) hs
  rw [hseen.1, hseen.2] at horder
  exact ⟨s, hs, horder, htry⟩

end OneConsumer

end BlockingQueue
end PyCtp
