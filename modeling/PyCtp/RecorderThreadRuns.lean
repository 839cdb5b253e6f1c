import PyCtp.RecorderThreads

/-!
# Runs of the threads of the recorder

Whatever the interleaving, the disk is that of a sequential program which records the ticks of
the handled tasks one after the other, and the handled tasks are the first ones that were
enqueued. A consumer that sleeps has handled them all.
-/
namespace PyCtp
open LabelledRuns

namespace MdApi

section Ticks
variable {D : Type*} (fs : FileSystem D Text Char) (tickPath : Text)

variable {fs} {tickPath}

end Ticks

namespace Threads
variable {D : Type*} {fs : FileSystem D Text Char} {sizes : FieldSizes} {cfg : Config} {width : ℕ}
  {disk : D} {s t : State D} {es : List Event}

theorem castable_of_mem_arrived {a : Task} (h : a ∈ arrived es) : a.Castable := by
  obtain ⟨e, -, he⟩ := List.mem_filterMap.mp h
  cases e with
  | callback cb allocated => exact castable_of_enqueued he
  | _ => cases he

theorem received_eq (h : run (step fs sizes cfg width) (.start disk) es = some s) :
    s.queue.inner.received.map Prod.snd = s.handled ++ BlockingQueue.pending s.queue := by
  refine run_invariant (fun s : State D =>
    s.queue.inner.received.map Prod.snd = s.handled ++ BlockingQueue.pending s.queue) ?_ rfl h
  intro s e t hs he
  cases (step_cases he).2 with
  | callback hcb hapi hq => simpa [BlockingQueue.handed] using BlockingQueue.received_of_step hs hq
  | produce hq => simpa [BlockingQueue.handed] using BlockingQueue.received_of_step hs hq
  | leaveEnqueue hctp hq => simpa [BlockingQueue.handed] using BlockingQueue.received_of_step hs hq
  | waitDequeue hq => simpa [BlockingQueue.handed] using BlockingQueue.received_of_step hs hq
  | consume hq => simpa [BlockingQueue.handed] using BlockingQueue.received_of_step hs hq
  | handle hc hq => simpa [BlockingQueue.handed, hc] using BlockingQueue.received_of_step hs hq
  | _ => exact hs

theorem mem_arrived_of_mem (h : run (step fs sizes cfg width) (.start disk) es = some s) {a : Task}
    (ha : a ∈ s.handled ++ BlockingQueue.pending s.queue) : a ∈ arrived es := by
  have hq := queue_of_run h
  obtain ⟨-, hstorage⟩ := BlockingQueue.ledger_of_run hq
  rw [← received_eq h] at ha
  obtain ⟨r, hr, rfl⟩ := List.mem_map.mp ha
  have hmem := List.mem_of_getElem? (hstorage.received r hr).2
  rw [← offered_queueEvents]
  exact (BlockingQueue.enqueued_sublist hq).subset (List.mem_append_left _ hmem)

theorem received_isPrefix (hwidth : 6 ≤ width)
    (h : run (step fs sizes cfg width) (.start disk) es = some s) :
    s.handled ++ BlockingQueue.pending s.queue <+: s.queue.inner.enqueued := by
  have hq := queue_of_run h
  obtain ⟨hledger, hstorage⟩ := BlockingQueue.ledger_of_run hq
  have hle := hledger.permits_le
  have hreceived := hstorage.received_take (by omega) (BlockingQueue.single_of_run hwidth hq).order
  rw [received_eq h] at hreceived
  exact hreceived ▸ List.take_prefix _ _

theorem handled_isPrefix (hwidth : 6 ≤ width)
    (h : run (step fs sizes cfg width) (.start disk) es = some s) :
    s.handled <+: s.queue.inner.enqueued :=
  (List.prefix_append _ _).trans (received_isPrefix hwidth h)

/-- The consumer has started and cannot go on, no `enqueue` is under way, and nothing failed. -/
structure Drained (fs : FileSystem D Text Char) (sizes : FieldSizes) (cfg : Config) (width : ℕ)
    (s : State D) : Prop where
  started : s.store.started = true
  alive : s.store.fault = none
  outside : s.queue.producer = .idle
  wait : step fs sizes cfg width s .waitDequeue = none
  consume : step fs sizes cfg width s (.consume false) = none
  handle : step fs sizes cfg width s .handle = none

/-- Nothing is lost between the threads: a consumer that cannot go on has handled all tasks. -/
theorem handled_of_drained (hwidth : 6 ≤ width)
    (h : run (step fs sizes cfg width) (.start disk) es = some s)
    (hdrained : Drained fs sizes cfg width s) : s.handled = s.queue.inner.enqueued := by
  have hq := queue_of_run h
  obtain ⟨hledger, -⟩ := BlockingQueue.ledger_of_run hq
  have hinside := hledger.inside ()
  obtain ⟨hstarted, halive, hp, hwait, hconsume, hhandle⟩ := hdrained
  simp only [step, halive, Option.isNone_none, if_true, State.advance, hstarted]
    at hwait hconsume hhandle
  have hidle : s.queue.consumer () ≠ .idle := by
    intro hc
    rw [BlockingQueue.State.place, hc] at hinside
    simp [State.onQueue, BlockingQueue.step, hc, BlockingQueue.State.onSema,
      LightweightSemaphore.step] at hwait
    exact hwait hinside.1
  have hreturned : ∀ task, s.queue.consumer () ≠ .returned task := by
    intro task hc
    simp [State.onQueue, BlockingQueue.step, hc] at hhandle
  have hstuck : ∀ t, BlockingQueue.step width s.queue (.consume () false) ≠ some t := by
    intro t ht
    simp [State.onQueue, ht] at hconsume
  obtain ⟨hc, hall⟩ := BlockingQueue.received_of_stuck hwidth hq hidle hreturned hstuck hp
  rw [received_eq h, BlockingQueue.pending, hc, List.append_nil] at hall
  exact hall

def oneTask (cb : Callback) (between : List Event) : List Event :=
  [.init, .connect, .callback cb true, .produce, .produce, .produce, .produce, .leaveEnqueue] ++
    between ++ .waitDequeue :: List.replicate 12 (.consume false) ++ [.handle]

/-- A `subscribe` of the run reads a symbol file on which its loop does not end. -/
def Caught (es : List Event) : Prop :=
  ∃ symbolFile, .subscribe symbolFile ∈ es ∧ NeverSubscribes symbolFile

/-- What has to have happened before a failure. -/
def Explained (sizes : FieldSizes) (cfg : Config) (es : List Event) : Fault → Prop
  | .nullArgument => ∃ cb allocated, .callback cb allocated ∈ es ∧ cb.nonNull = false
  | .badAnyCast => False
  | .nullApi => .close ∈ es
  | .invalidParameter => loginRequest sizes cfg = none
  | .badAlloc => Caught es

theorem Caught.concat (h : Caught es) (e : Event) : Caught (es ++ [e]) := by
  obtain ⟨symbolFile, hmem, hnever⟩ := h
  exact ⟨symbolFile, List.mem_append_left _ hmem, hnever⟩

theorem Explained.concat {f : Fault} (h : Explained sizes cfg es f) (e : Event) :
    Explained sizes cfg (es ++ [e]) f := by
  cases f with
  | nullArgument =>
    obtain ⟨cb, allocated, hmem, hnull⟩ := h
    exact ⟨cb, allocated, List.mem_append_left _ hmem, hnull⟩
  | badAnyCast => exact h
  | nullApi => exact List.mem_append_left [e] h
  | invalidParameter => exact h
  | badAlloc => exact Caught.concat h e

/-- The API object is there from the first callback on, until it is closed; and neither a failure
nor the endless loop comes from nothing. -/
structure Sound (sizes : FieldSizes) (cfg : Config) (es : List Event) (s : State D) : Prop where
  live : s.store.api = .live ∨ .close ∈ es ∨ arrived es = [] ∧ s.ctp = .free
  caught : s.store.hung = true → Caught es
  explained : ∀ f, s.store.fault = some f → Explained sizes cfg es f

theorem login_cases (s : Store D) : (s.login sizes cfg).api = s.api ∧
    (s.login sizes cfg).hung = s.hung ∧
    ((s.login sizes cfg).fault = s.fault ∨
      loginRequest sizes cfg = none ∧ (s.login sizes cfg).fault = some .invalidParameter ∨
      s.api ≠ .live ∧ (s.login sizes cfg).fault = some .nullApi) := by
  rw [Store.login]
  split
  · rename_i hnone
    exact ⟨rfl, rfl, .inr (.inl ⟨hnone, rfl⟩)⟩
  · split
    · exact ⟨rfl, rfl, .inl rfl⟩
    · rename_i hapi
      exact ⟨rfl, rfl, .inr (.inr ⟨hapi, rfl⟩)⟩

theorem subscribe_cases (symbolFile : Option Text) (s : Store D) :
    (subscribe symbolFile s).api = s.api ∧
      ((subscribe symbolFile s).hung = s.hung ∨ NeverSubscribes symbolFile) ∧
      ((subscribe symbolFile s).fault = s.fault ∨
        s.api ≠ .live ∧ (subscribe symbolFile s).fault = some .nullApi) := by
  rw [subscribe]
  split
  · rename_i hapi
    exact ⟨rfl, .inl rfl, .inr ⟨hapi.2, rfl⟩⟩
  · rw [Store.subscribe]
    split
    · rename_i hnone
      exact ⟨rfl, .inr (subscribeNames_eq_none_iff.mp hnone), .inl rfl⟩
    · exact ⟨rfl, .inl rfl, .inl rfl⟩

namespace Sound

theorem concat (h : Sound sizes cfg es s) (e : Event) (hapi : t.store.api = s.store.api)
    (hctp : s.ctp = .free → t.ctp = .free) (harrived : arrived [e] = [])
    (hhung : t.store.hung = true → s.store.hung = true ∨ Caught (es ++ [e]))
    (hfault : ∀ f, t.store.fault = some f →
      s.store.fault = some f ∨ Explained sizes cfg (es ++ [e]) f) :
    Sound sizes cfg (es ++ [e]) t where
  live := by
    rcases h.live with hlive | hclose | ⟨hnone, hfree⟩
    · exact .inl (hapi.trans hlive)
    · exact .inr (.inl (List.mem_append_left _ hclose))
    · refine .inr (.inr ⟨?_, hctp hfree⟩)
      have happend : arrived (es ++ [e]) = arrived es ++ arrived [e] := List.filterMap_append
      rw [happend, hnone, harrived, List.append_nil]
  caught ht := (hhung ht).elim (fun hs => (h.caught hs).concat e) id
  explained f hf := by
    rcases hfault f hf with hold | hnew
    · exact (h.explained f hold).concat e
    · exact hnew

theorem of_live (h : Sound sizes cfg es s) (e : Event) (hapi : t.store.api = .live)
    (hhung : t.store.hung = s.store.hung) (hfault : ∀ f, t.store.fault = some f →
      s.store.fault = some f ∨ Explained sizes cfg (es ++ [e]) f) :
    Sound sizes cfg (es ++ [e]) t where
  live := .inl hapi
  caught ht := (h.caught (hhung ▸ ht)).concat e
  explained f hf := by
    rcases hfault f hf with hold | hnew
    · exact (h.explained f hold).concat e
    · exact hnew

theorem step (h : Sound sizes cfg es s)
    (hrun : run (Threads.step fs sizes cfg width) (.start disk) es = some s) {e : Event}
    (he : Threads.step fs sizes cfg width s e = some t) : Sound sizes cfg (es ++ [e]) t := by
  cases (step_cases he).2 with
  | init => exact h.concat _ rfl id rfl .inl fun f hf => .inl hf
  | connect => exact h.of_live _ rfl rfl fun f hf => .inl hf
  | close =>
    refine ⟨.inr (.inl (by simp)), fun ht => (h.caught ht).concat _, fun f hf => ?_⟩
    exact (h.explained f hf).concat _
  | @nullArgument cb allocated hcb hapi =>
    refine h.of_live _ hapi rfl fun f hf => .inr ?_
    obtain rfl := Option.some.inj hf
    refine ⟨cb, allocated, by simp, ?_⟩
    rw [← isSome_enqueued, hcb]
    rfl
  | callback hcb hapi hq => exact h.of_live _ hapi rfl fun f hf => .inl hf
  | produce => exact h.concat _ rfl id rfl .inl fun f hf => .inl hf
  | leaveEnqueue hctp hq =>
    refine h.concat _ rfl (fun hfree => ?_) rfl .inl fun f hf => .inl hf
    rw [hctp] at hfree
    cases hfree
  | @subscribe symbolFile hctp =>
    obtain ⟨hapi, hhung, hfault⟩ := subscribe_cases symbolFile s.store
    refine h.concat _ hapi (fun _ => rfl) rfl (fun ht => ?_) fun f hf => ?_
    · rcases hhung with hsame | hnever
      · exact .inl (hsame.symm.trans ht)
      · exact .inr ⟨symbolFile, by simp, hnever⟩
    · rcases hfault with hsame | ⟨hdead, hnull⟩
      · exact .inl (hsame.symm.trans hf)
      · obtain rfl := Option.some.inj (hnull.symm.trans hf)
        rcases h.live with hlive | hclose | ⟨-, hfree⟩
        · exact absurd hlive hdead
        · exact .inr (List.mem_append_left _ hclose)
        · rw [hctp] at hfree
          cases hfree
  | exhaust hhung =>
    refine h.concat _ rfl id rfl .inl fun f hf => .inr ?_
    obtain rfl := Option.some.inj hf
    exact (h.caught hhung).concat _
  | waitDequeue => exact h.concat _ rfl id rfl .inl fun f hf => .inl hf
  | consume => exact h.concat _ rfl id rfl .inl fun f hf => .inl hf
  | @handle task queue hc hq =>
    have hmem : task ∈ arrived es := by
      apply mem_arrived_of_mem hrun
      simp [BlockingQueue.pending, hc]
    rcases processTask_cases fs sizes cfg (castable_of_mem_arrived hmem) s.store with
      ⟨-, -, hstore⟩ | ⟨md, -, -, hstore⟩ | ⟨-, -, hstore⟩
    · obtain ⟨hapi, hhung, hfault⟩ := @login_cases D sizes cfg s.store
      rw [← hstore] at hapi hhung hfault
      refine h.concat _ hapi id rfl (fun ht => .inl (hhung.symm.trans ht)) fun f hf => ?_
      rcases hfault with hsame | ⟨hfit, hnew⟩ | ⟨hdead, hnew⟩
      · exact .inl (hsame.symm.trans hf)
      · obtain rfl := Option.some.inj (hnew.symm.trans hf)
        exact .inr hfit
      · obtain rfl := Option.some.inj (hnew.symm.trans hf)
        rcases h.live with hlive | hclose | ⟨hnone, -⟩
        · exact absurd hlive hdead
        · exact .inr (List.mem_append_left _ hclose)
        · rw [hnone] at hmem
          cases hmem
    · refine h.concat _ (by rw [hstore]) id rfl (fun ht => .inl ?_) fun f hf => .inl ?_
      · rw [hstore] at ht
        exact ht
      · rw [hstore] at hf
        exact hf
    · refine h.concat _ (by rw [hstore]) id rfl (fun ht => .inl ?_) fun f hf => .inl ?_
      · rw [hstore] at ht
        exact ht
      · rw [hstore] at hf
        exact hf

end Sound

/-- No interleaving ends the process but for a null argument of a callback, a login that does not
fit its fields, a call through the API object after `close`, or a symbol file on which the loop of
`subscribe` does not end; a task is never cast to another type than the one it holds. -/
theorem fault_of_run (h : run (step fs sizes cfg width) (.start disk) es = some s) {f : Fault}
    (hf : s.store.fault = some f) : Explained sizes cfg es f := by
  have hsound : Sound sizes cfg es s := run_history (fun es s => Sound sizes cfg es s)
    ⟨.inr (.inr ⟨rfl, rfl⟩), fun ht => (by cases ht), fun f hf => (by cases hf)⟩
    (fun es s e t hrun hs he => hs.step hrun he) h
  exact hsound.explained f hf

/-- A login handled after `close`. -/
theorem fault_of_run_close :
    ∃ s, run (step flatDisk ⟨11, 16, 41⟩ sampleConfig 64) (.start fun _ => [])
        (oneTask .onFrontConnected [.close]) = some s ∧ s.store.fault = some .nullApi ∧
      Explained ⟨11, 16, 41⟩ sampleConfig (oneTask .onFrontConnected [.close]) .nullApi := by
  obtain ⟨s, hs, hfault⟩ : ∃ s,
      run (step flatDisk ⟨11, 16, 41⟩ sampleConfig 64) (.start fun _ => [])
        (oneTask .onFrontConnected [.close]) = some s ∧ s.store.fault = some .nullApi :=
    ⟨_, rfl, rfl⟩
  exact ⟨s, hs, hfault, fault_of_run hs hfault⟩

end Threads
end MdApi
end PyCtp
