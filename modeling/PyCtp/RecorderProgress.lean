import PyCtp.BlockingQueueProgress
import PyCtp.RecorderThreadRuns

/-!
# Progress of the consumer thread of the recorder

With the CTP thread outside its callbacks the consumer thread works off the queue in a bounded
number of steps, unless a login ends the process before.
-/
namespace PyCtp
open LabelledRuns

namespace MdApi
namespace Threads
variable {D : Type*} {fs : FileSystem D Text Char} {sizes : FieldSizes} {cfg : Config} {width : ℕ}
  {disk : D} {s t : State D} {es : List Event}

/-- The events of the consumer thread, but a `compare_exchange_weak` that fails without need. -/
def Event.ofConsumer : Event → Prop
  | .waitDequeue | .consume false | .handle => True
  | _ => False

/-- What the consumer thread relies on and keeps. -/
structure Serving (fs : FileSystem D Text Char) (sizes : FieldSizes) (cfg : Config) (width : ℕ)
    (disk : D) (tasks : List Task) (s : State D) : Prop where
  reached : ∃ es, run (step fs sizes cfg width) (.start disk) es = some s
  started : s.store.started = true
  outside : s.queue.producer = .idle
  enqueued : s.queue.inner.enqueued = tasks

theorem started_login (s : Store D) : (s.login sizes cfg).started = s.started := by
  rw [Store.login]
  split
  · rfl
  · split <;> rfl

theorem started_of_live (h : run (step fs sizes cfg width) (.start disk) es = some s)
    (hlive : s.store.api = .live) : s.store.started = true := by
  refine run_history (fun _ s => s.store.api = .live → s.store.started = true)
    (fun hlive => by cases hlive) ?_ h hlive
  intro es s e t hrun hs he hlive
  cases (step_cases he).2 with
  | init => rfl
  | connect hstarted => exact hstarted
  | close => cases hlive
  | @subscribe symbolFile =>
    rw [(subscribe_cases symbolFile s.store).1] at hlive
    dsimp only
    rw [subscribe]
    split
    · exact hs hlive
    · rw [Store.subscribe]
      split <;> exact hs hlive
  | @handle task queue hc =>
    have hmem : task ∈ arrived es := by
      apply mem_arrived_of_mem hrun
      simp [BlockingQueue.pending, hc]
    dsimp only at hlive ⊢
    rcases processTask_cases fs sizes cfg (castable_of_mem_arrived hmem) s.store with
      ⟨-, -, hstore⟩ | ⟨md, -, -, hstore⟩ | ⟨-, -, hstore⟩
    · rw [hstore, started_login]
      rw [hstore, (login_cases s.store).1] at hlive
      exact hs hlive
    · rw [hstore] at hlive ⊢
      exact hs hlive
    · rw [hstore] at hlive ⊢
      exact hs hlive
  | _ => exact hs hlive

theorem enqueuing_of_run (h : run (step fs sizes cfg width) (.start disk) es = some s)
    (hp : s.queue.producer ≠ .idle) : ∃ cb, s.ctp = .enqueuing cb := by
  refine run_invariant (fun s : State D => s.queue.producer ≠ .idle → ∃ cb, s.ctp = .enqueuing cb)
    ?_ (fun hp => absurd rfl hp) h hp
  intro s e t hs he hp
  cases (step_cases he).2 with
  | callback => exact ⟨_, rfl⟩
  | produce hq =>
    cases BlockingQueue.step_cases hq with
    | construct hbefore => exact hs (by simp [hbefore])
    | publish hbefore => exact hs (by simp [hbefore])
    | enqueued hbefore => exact hs (by simp [hbefore])
    | signal hbefore => exact hs (by simp [hbefore])
    | release hbefore => exact hs (by simp [hbefore])
  | leaveEnqueue hctp hq =>
    cases BlockingQueue.step_cases hq with
    | leaveEnqueue => exact absurd rfl hp
  | subscribe hctp =>
    obtain ⟨cb, hcb⟩ := hs hp
    rw [hctp] at hcb
    cases hcb
  | waitDequeue hq =>
    cases BlockingQueue.step_cases hq with
    | wait => exact hs hp
  | consume hq => cases BlockingQueue.step_cases hq <;> exact hs hp
  | handle hc hq =>
    cases BlockingQueue.step_cases hq with
    | leaveDequeue => exact hs hp
  | _ => exact hs hp

theorem queue_of_consumer {e : Event} (he : e.ofConsumer)
    (h : step fs sizes cfg width s e = some t) :
    ∃ e : BlockingQueue.Event Unit Task, e.ofConsumer ∧
      BlockingQueue.step width s.queue e = some t.queue := by
  cases (step_cases h).2 with
  | waitDequeue hq => exact ⟨.waitDequeue (), trivial, hq⟩
  | @consume weak queue hq =>
    cases weak with
    | true => cases he
    | false => exact ⟨.consume () false, trivial, hq⟩
  | handle hc hq => exact ⟨.leaveDequeue (), trivial, hq⟩
  | _ => cases he

theorem Serving.step {tasks : List Task} (hwidth : 6 ≤ width)
    (h : Serving fs sizes cfg width disk tasks s) {e : Event} (he : e.ofConsumer)
    (hstep : Threads.step fs sizes cfg width s e = some t) :
    Serving fs sizes cfg width disk tasks t ∧
      BlockingQueue.cost t.queue < BlockingQueue.cost s.queue := by
  obtain ⟨⟨es, hrun⟩, hstarted, hp, henqueued⟩ := h
  obtain ⟨e', he', hq⟩ := queue_of_consumer he hstep
  obtain ⟨hproducer, hsame⟩ := BlockingQueue.producer_of_step he' hq
  obtain ⟨hledger, hstorage⟩ := BlockingQueue.ledger_of_run (queue_of_run hrun)
  have hsingle := BlockingQueue.single_of_run hwidth (queue_of_run hrun)
  refine ⟨⟨⟨es ++ [e], run_concat.mpr ⟨s, hrun, hstep⟩⟩, ?_, hproducer.trans hp,
    hsame.trans henqueued⟩, BlockingQueue.cost_of_step hledger hstorage hsingle he' hq⟩
  cases (step_cases hstep).2 with
  | waitDequeue => exact hstarted
  | consume => exact hstarted
  | @handle task queue hc =>
    have hmem : task ∈ arrived es := by
      apply mem_arrived_of_mem hrun
      simp [BlockingQueue.pending, hc]
    dsimp only
    rcases processTask_cases fs sizes cfg (castable_of_mem_arrived hmem) s.store with
      ⟨-, -, hstore⟩ | ⟨md, -, -, hstore⟩ | ⟨-, -, hstore⟩
    · rw [hstore, started_login, hstarted]
    · rw [hstore, hstarted]
    · rw [hstore, hstarted]
  | _ => cases he

/-- With no callback under way the consumer thread takes a bounded number of steps, those where
`compare_exchange_weak` fails without need not counted; it can go on until nothing failed and all
tasks are handled, or the handler of a task ends the process. -/
theorem drained_of_run (hwidth : 6 ≤ width)
    (h : run (step fs sizes cfg width) (.start disk) es = some s)
    (hstarted : s.store.started = true) (hp : s.queue.producer = .idle) :
    (∀ es' t, (∀ e ∈ es', e.ofConsumer) → run (step fs sizes cfg width) s es' = some t →
        es'.length ≤ BlockingQueue.cost s.queue) ∧
      ∃ es' t, (∀ e ∈ es', e.ofConsumer) ∧ run (step fs sizes cfg width) s es' = some t ∧
        (t.store.fault = none → Drained fs sizes cfg width t ∧
          t.handled = s.queue.inner.enqueued) := by
  have hserving : Serving fs sizes cfg width disk s.queue.inner.enqueued s :=
    ⟨⟨es, h⟩, hstarted, hp, rfl⟩
  have hstep : ∀ s' e t, Serving fs sizes cfg width disk s.queue.inner.enqueued s' →
      e.ofConsumer → step fs sizes cfg width s' e = some t →
      Serving fs sizes cfg width disk s.queue.inner.enqueued t ∧
        BlockingQueue.cost t.queue < BlockingQueue.cost s'.queue :=
    fun s' e t hs he hst => hs.step hwidth he hst
  refine ⟨fun es' t hes hrun => ?_, ?_⟩
  · have hle := run_length_le hstep hserving hes hrun
    omega
  · obtain ⟨es', t, hes, hrun, hlast, hstuck⟩ := exists_run_stuck hstep hserving
    refine ⟨es', t, hes, hrun, fun halive => ?_⟩
    have hdrained : Drained fs sizes cfg width t := ⟨hlast.started, halive, hlast.outside,
      hstuck .waitDequeue trivial, hstuck (.consume false) trivial, hstuck .handle trivial⟩
    obtain ⟨fs', hreached⟩ := hlast.reached
    exact ⟨hdrained, (handled_of_drained hwidth hreached hdrained).trans hlast.enqueued⟩

theorem drained_of_run_sample :
    ∃ s, run (step flatDisk ⟨11, 16, 41⟩ sampleConfig 64) (.start fun _ => [])
        [.init, .connect, .callback (.onRtnDepthMarketData (some sampleTick)) true, .produce,
          .produce, .produce, .produce, .leaveEnqueue] = some s ∧
      ∃ es' t, run (step flatDisk ⟨11, 16, 41⟩ sampleConfig 64) s es' = some t ∧
        (t.store.fault = none → t.handled = s.queue.inner.enqueued) := by
  obtain ⟨s, hs, hstarted, hp⟩ : ∃ s,
      run (step flatDisk ⟨11, 16, 41⟩ sampleConfig 64) (.start fun _ => [])
        [.init, .connect, .callback (.onRtnDepthMarketData (some sampleTick)) true, .produce,
          .produce, .produce, .produce, .leaveEnqueue] = some s ∧ s.store.started = true ∧
        s.queue.producer = .idle := ⟨_, rfl, rfl, rfl⟩
  obtain ⟨-, es', t, -, hrun, hdrained⟩ := drained_of_run (by decide) hs hstarted hp
  exact ⟨s, hs, es', t, hrun, fun halive => (hdrained halive).2⟩

end Threads
end MdApi
end PyCtp
