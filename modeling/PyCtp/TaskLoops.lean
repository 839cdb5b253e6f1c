import PyCtp.LabelledRuns
import Mathlib.Order.Basic

/-!
# Callbacks and a task loop

A component that is called from outside and works through a queue from inside: each
external event updates the store and posts tasks at the end of the queue, each dispatch
takes the first task and handles it. A dispatch carries a label for what the environment
answers while the task is handled.
-/
namespace PyCtp

/-- The parts of such a component: stores `σ`, external events `ε`, tasks `α` and
dispatch labels `ω`. -/
structure TaskLoop (σ ε α ω : Type*) where
  alive : σ → Bool
  accept : σ → ε → Option σ
  post : ε → List α
  handle : σ → ω → α → σ

namespace TaskLoop
variable {σ ε α ω : Type*}

structure State (σ α : Type*) where
  store : σ
  queue : List α
  deriving DecidableEq, Repr

inductive Event (ε ω : Type*)
  | external (e : ε)
  | dispatch (w : ω)
  deriving DecidableEq, Repr

/-- One event, if it can happen: nothing happens in a store that is not alive, and a
dispatch waits for a task. -/
def step (L : TaskLoop σ ε α ω) (s : State σ α) : Event ε ω → Option (State σ α)
  | .external e =>
    if L.alive s.store then
      (L.accept s.store e).map fun store => ⟨store, s.queue ++ L.post e⟩
    else none
  | .dispatch w =>
    if L.alive s.store then
      match s.queue with
      | [] => none
      | a :: queue => some ⟨L.handle s.store w a, queue⟩
    else none

def run (L : TaskLoop σ ε α ω) : State σ α → List (Event ε ω) → Option (State σ α) :=
  LabelledRuns.run L.step

def externals (es : List (Event ε ω)) : List ε :=
  es.filterMap fun
    | .external e => some e
    | .dispatch _ => none

def labels (es : List (Event ε ω)) : List ω :=
  es.filterMap fun
    | .external _ => none
    | .dispatch w => some w

def posted (L : TaskLoop σ ε α ω) (es : List (Event ε ω)) : List α :=
  (externals es).flatMap L.post

/-- The tasks a run handled, each with the label of its dispatch: as many of the posted
ones, from the first on, as there were dispatches. -/
def handled (L : TaskLoop σ ε α ω) (es : List (Event ε ω)) : List (ω × α) :=
  (labels es).zip (L.posted es)

variable {L : TaskLoop σ ε α ω}

section
variable (es : List (Event ε ω)) (e : ε) (w : ω)

@[simp] theorem externals_concat_external :
    externals (es ++ [.external e]) = externals es ++ [e] := by simp [externals]

@[simp] theorem externals_concat_dispatch :
    externals (es ++ [.dispatch w]) = externals es := by simp [externals]

@[simp] theorem labels_concat_external :
    labels (es ++ [.external e]) = labels es := by simp [labels]

@[simp] theorem labels_concat_dispatch :
    labels (es ++ [.dispatch w]) = labels es ++ [w] := by simp [labels]

@[simp] theorem posted_concat_external :
    L.posted (es ++ [.external e]) = L.posted es ++ L.post e := by
  rw [posted, externals_concat_external, List.flatMap_append, List.flatMap_singleton, posted]

@[simp] theorem posted_concat_dispatch : L.posted (es ++ [.dispatch w]) = L.posted es := by
  rw [posted, externals_concat_dispatch, posted]

end

theorem externals_append (es fs : List (Event ε ω)) :
    externals (es ++ fs) = externals es ++ externals fs := List.filterMap_append

@[simp] theorem externals_map_external (cs : List ε) :
    externals (cs.map (.external : ε → Event ε ω)) = cs := by
  rw [externals, List.filterMap_map]
  exact List.filterMap_some

@[simp] theorem externals_map_dispatch (ws : List ω) :
    externals (ws.map (.dispatch : ω → Event ε ω)) = [] := by
  rw [externals, List.filterMap_map]
  exact List.filterMap_eq_nil_iff.mpr fun _ _ => rfl

theorem mem_externals {e : ε} {es : List (Event ε ω)} :
    e ∈ externals es ↔ .external e ∈ es := by
  rw [externals, List.mem_filterMap]
  constructor
  · rintro ⟨x, hx, he⟩
    cases x with
    | external e' =>
      obtain rfl := Option.some.inj he
      exact hx
    | dispatch w => cases he
  · exact fun h => ⟨_, h, rfl⟩

theorem step_cases {s t : State σ α} {x : Event ε ω} (h : L.step s x = some t) :
    L.alive s.store = true ∧
      ((∃ e store, x = .external e ∧ L.accept s.store e = some store ∧
          t = ⟨store, s.queue ++ L.post e⟩) ∨
        ∃ w a queue, x = .dispatch w ∧ s.queue = a :: queue ∧
          t = ⟨L.handle s.store w a, queue⟩) := by
  cases x with
  | external e =>
    simp only [step] at h
    split at h
    · obtain ⟨store, hs, rfl⟩ := Option.map_eq_some_iff.mp h
      exact ⟨‹_›, .inl ⟨e, store, rfl, hs, rfl⟩⟩
    · cases h
  | dispatch w =>
    simp only [step] at h
    split at h
    · cases hq : s.queue with
      | nil => simp [hq] at h
      | cons a queue =>
        rw [hq] at h
        exact ⟨‹_›, .inr ⟨w, a, queue, rfl, rfl, (Option.some.inj h).symm⟩⟩
    · cases h

/-- The first-in first-out law: after every run from an empty queue, the posted tasks
are the handled ones followed by the queue. -/
theorem run_fifo {s t : State σ α} {es : List (Event ε ω)} (hs : s.queue = [])
    (hrun : L.run s es = some t) :
    (labels es).length ≤ (L.posted es).length ∧
      t.queue = (L.posted es).drop (labels es).length := by
  refine LabelledRuns.run_history
    (fun es t => (labels es).length ≤ (L.posted es).length ∧
      t.queue = (L.posted es).drop (labels es).length) ?_ ?_ hrun
  · exact ⟨Nat.zero_le _, by simp [hs, posted, externals]⟩
  · rintro es t x u - ⟨hle, hq⟩ hx
    obtain ⟨-, ⟨e, store, rfl, -, rfl⟩ | ⟨w, a, queue, rfl, hqueue, rfl⟩⟩ := step_cases hx
    · rw [posted_concat_external, labels_concat_external]
      refine ⟨by rw [List.length_append]; omega, ?_⟩
      rw [List.drop_append_of_le_length hle, ← hq]
    · rw [posted_concat_dispatch, labels_concat_dispatch, List.length_append,
        List.length_singleton]
      rw [hqueue] at hq
      have hlt : (labels es).length < (L.posted es).length := by
        by_contra hge
        rw [List.drop_eq_nil_of_le (by omega)] at hq
        cases hq
      refine ⟨hlt, ?_⟩
      rw [List.drop_eq_getElem_cons hlt] at hq
      exact (List.cons.inj hq).2

theorem handled_of_drained {s t : State σ α} {es : List (Event ε ω)} (hs : s.queue = [])
    (hrun : L.run s es = some t) (ht : t.queue = []) :
    (L.handled es).map Prod.snd = L.posted es := by
  obtain ⟨hle, hq⟩ := run_fifo hs hrun
  have hge := List.drop_eq_nil_iff.mp (hq.symm.trans ht)
  exact List.map_snd_zip hge

private theorem zip_append_of_length_le {as : List ω} {bs : List α} (h : as.length ≤ bs.length)
    (cs : List α) : as.zip (bs ++ cs) = as.zip bs := by
  induction as generalizing bs with
  | nil => simp
  | cons a as ih =>
    cases bs with
    | nil => simp at h
    | cons b bs => simpa using ih (by simpa using h)

private theorem zip_concat_of_drop {as : List ω} {bs cs : List α} {b : α} (w : ω)
    (h : bs.drop as.length = b :: cs) : (as ++ [w]).zip bs = as.zip bs ++ [(w, b)] := by
  induction as generalizing bs with
  | nil =>
    obtain rfl : bs = b :: cs := h
    simp
  | cons a as ih =>
    cases bs with
    | nil => simp at h
    | cons c bs => simpa using ih (by simpa using h)

/-- What accepting keeps, and handling one more task keeps, holds of the handled tasks
and the store after every run. Only tasks that were posted need be considered. -/
theorem run_handled {s t : State σ α} {es : List (Event ε ω)} (hs : s.queue = [])
    (I : List (ω × α) → σ → Prop) (hnil : I [] s.store)
    (haccept : ∀ hs store e store', .external e ∈ es → L.alive store = true → I hs store →
      L.accept store e = some store' → I hs store')
    (hhandle : ∀ hs store w a, a ∈ L.posted es → L.alive store = true → I hs store →
      I (hs ++ [(w, a)]) (L.handle store w a))
    (hrun : L.run s es = some t) : I (L.handled es) t.store := by
  induction es using List.reverseRecOn generalizing t with
  | nil =>
    obtain rfl := Option.some.inj hrun
    exact hnil
  | append_singleton es x ih =>
    obtain ⟨u, hu, hx⟩ := LabelledRuns.run_concat.mp hrun
    obtain ⟨hle, hq⟩ := run_fifo hs hu
    have hmono : ∀ a ∈ L.posted es, a ∈ L.posted (es ++ [x]) := by
      intro a ha
      cases x with
      | external e =>
        rw [posted_concat_external]
        exact List.mem_append_left _ ha
      | dispatch w => rwa [posted_concat_dispatch]
    have hI := ih (fun hs store e store' he => haccept hs store e store' (by simp [he]))
      (fun hs store w a ha => hhandle hs store w a (hmono a ha)) hu
    obtain ⟨halive, ⟨e, store, rfl, hacc, rfl⟩ | ⟨w, a, queue, rfl, hqueue, rfl⟩⟩ :=
      step_cases hx
    · have hsame : L.handled (es ++ [.external e]) = L.handled es := by
        rw [handled, posted_concat_external, labels_concat_external, zip_append_of_length_le hle,
          handled]
      rw [hsame]
      exact haccept _ _ e _ (by simp) halive hI hacc
    · have hnext : L.handled (es ++ [.dispatch w]) = L.handled es ++ [(w, a)] := by
        rw [handled, posted_concat_dispatch, labels_concat_dispatch]
        exact zip_concat_of_drop w (hq.symm.trans hqueue)
      rw [hnext]
      refine hhandle _ _ w a ?_ halive hI
      rw [posted_concat_dispatch]
      exact List.mem_of_mem_drop (hq ▸ hqueue ▸ List.mem_cons_self)

theorem exists_run_dispatches {I : σ → Prop} {q r : List α}
    (hI : ∀ store, I store → L.alive store = true)
    {ws : List ω} (hlen : ws.length = q.length)
    (hhandle : ∀ store w a, w ∈ ws → a ∈ q → I store → I (L.handle store w a)) {store : σ}
    (hs : I store) :
    ∃ t, L.run ⟨store, q ++ r⟩ (ws.map .dispatch) = some t ∧ I t.store ∧
      t.queue = r := by
  induction ws generalizing store q with
  | nil =>
    obtain rfl := List.eq_nil_of_length_eq_zero hlen.symm
    exact ⟨_, rfl, hs, rfl⟩
  | cons w ws ih =>
    cases q with
    | nil => simp at hlen
    | cons a q =>
      have hstep : L.step ⟨store, a :: q ++ r⟩ (.dispatch w) =
          some ⟨L.handle store w a, q ++ r⟩ := by simp [step, hI store hs]
      obtain ⟨t, ht, hIt, hq⟩ := ih (by simpa using hlen)
        (fun store v b hv hb => hhandle store v b (List.mem_cons_of_mem w hv)
          (List.mem_cons_of_mem a hb))
        (hhandle store w a List.mem_cons_self List.mem_cons_self hs)
      exact ⟨t, LabelledRuns.run_cons.mpr ⟨_, hstep, ht⟩, hIt, hq⟩

/-- Where handling keeps the store alive except for tasks of one kind, the queue can be worked
off up to the first of these. -/
theorem exists_run_to_first {I : σ → Prop} (p : α → Bool)
    (hI : ∀ store, I store → L.alive store = true) (w : ω) {s : State σ α}
    (hhandle : ∀ store a, a ∈ s.queue → p a = false → I store → I (L.handle store w a))
    (hs : I s.store) (h : ∃ a ∈ s.queue, p a = true) :
    ∃ (ws : List ω) (t : State σ α) (a : α) (rest : List α),
      L.run s (ws.map .dispatch) = some t ∧ I t.store ∧ t.queue = a :: rest ∧ p a = true := by
  obtain ⟨a, ha⟩ := Option.isSome_iff_exists.mp (List.find?_isSome.mpr h)
  obtain ⟨hp, before, rest, hq, hbefore⟩ := List.find?_eq_some_iff_append.mp ha
  have hkeep : ∀ store v b, v ∈ List.replicate before.length w → b ∈ before → I store →
      I (L.handle store v b) := by
    intro store v b hv hb hstore
    rw [List.eq_of_mem_replicate hv]
    exact hhandle store b (by simp [hq, hb]) (by simpa using hbefore b hb) hstore
  obtain ⟨t, ht, hIt, htq⟩ := exists_run_dispatches (r := a :: rest) hI
    List.length_replicate hkeep hs
  rw [← hq] at ht
  exact ⟨_, t, a, rest, ht, hIt, htq, hp⟩

theorem run_externals (cs : List ε) {s : State σ α} (halive : L.alive s.store = true)
    (haccept : ∀ c ∈ cs, L.accept s.store c = some s.store) :
    L.run s (cs.map .external) = some ⟨s.store, s.queue ++ cs.flatMap L.post⟩ := by
  induction cs generalizing s with
  | nil => simp [run]
  | cons c cs ih =>
    obtain ⟨hc, hcs⟩ := List.forall_mem_cons.mp haccept
    have hstep : L.step s (.external c) = some ⟨s.store, s.queue ++ L.post c⟩ := by
      simp [step, halive, hc]
    refine LabelledRuns.run_cons.mpr ⟨_, hstep, ?_⟩
    rw [List.flatMap_cons, ← List.append_assoc]
    exact ih (s := ⟨s.store, s.queue ++ L.post c⟩) halive hcs

section Relabel
variable {β : Type*}

/-- The same component with tasks of another type, each standing for a task of `L`. -/
def relabel (L : TaskLoop σ ε α ω) (f : β → α) (post : ε → List β) : TaskLoop σ ε β ω where
  alive := L.alive
  accept := L.accept
  post := post
  handle s w b := L.handle s w (f b)

theorem exists_run_relabel {f : β → α} {post : ε → List β}
    (hpost : ∀ e, L.post e = (post e).map f) {store : σ} {t : State σ α}
    {es : List (Event ε ω)} (hrun : L.run ⟨store, []⟩ es = some t) :
    ∃ t', (L.relabel f post).run ⟨store, []⟩ es = some t' ∧ t'.store = t.store ∧
      t.queue = t'.queue.map f := by
  have hstep : ∀ (s : State σ α) (s' : State σ β) x u,
      s'.store = s.store ∧ s.queue = s'.queue.map f → L.step s x = some u →
      ∃ u', LabelledRuns.run (L.relabel f post).step s' [x] = some u' ∧
        u'.store = u.store ∧ u.queue = u'.queue.map f := by
    rintro s ⟨store, queue⟩ x u ⟨rfl, hq⟩ hx
    obtain ⟨halive, ⟨e, store, rfl, hacc, rfl⟩ | ⟨w, a, rest, rfl, ha, rfl⟩⟩ := step_cases hx
    · refine ⟨⟨store, queue ++ post e⟩, LabelledRuns.run_singleton.mpr ?_, rfl, ?_⟩
      · simp [step, relabel, halive, hacc]
      · rw [hq, hpost, List.map_append]
    · cases queue with
      | nil => simp [ha] at hq
      | cons b queue =>
        obtain ⟨rfl, rfl⟩ := List.cons.inj (ha.symm.trans hq)
        refine ⟨⟨L.handle s.store w (f b), queue⟩, LabelledRuns.run_singleton.mpr ?_, rfl, rfl⟩
        simp [step, relabel, halive]
  obtain ⟨t', ht', hsame⟩ := LabelledRuns.run_simulation _ _ hstep
    (show (⟨store, []⟩ : State σ β).store = store ∧ [] = [].map f from ⟨rfl, rfl⟩) hrun
  rw [List.flatMap_singleton'] at ht'
  exact ⟨t', ht', hsame⟩

end Relabel

/-- The external events whose tasks have been handled, where each event posts one task. -/
def heard (es : List (Event ε ω)) : List (ω × ε) := (labels es).zip (externals es)

theorem map_snd_zip_isPrefix (as : List ω) (bs : List ε) : (as.zip bs).map Prod.snd <+: bs := by
  induction as generalizing bs with
  | nil => exact List.nil_prefix
  | cons a as ih =>
    cases bs with
    | nil => exact List.nil_prefix
    | cons b bs => exact (List.prefix_cons_inj b).mpr (ih bs)

theorem heard_isPrefix (es : List (Event ε ω)) :
    (heard es).map Prod.snd <+: externals es := map_snd_zip_isPrefix _ _

theorem heard_of_drained {f : ε → α} (hpost : ∀ e, L.post e = [f e]) {s t : State σ α}
    {es : List (Event ε ω)} (hs : s.queue = []) (hrun : L.run s es = some t)
    (ht : t.queue = []) : (heard es).map Prod.snd = externals es := by
  obtain ⟨-, hq⟩ := run_fifo hs hrun
  have hlen : (L.posted es).length = (externals es).length := by
    rw [posted, funext hpost, ← List.map_eq_flatMap, List.length_map]
  have hge := List.drop_eq_nil_iff.mp (hq.symm.trans ht)
  exact List.map_snd_zip (hlen ▸ hge)

theorem run_heard {f : ε → α} (hpost : ∀ e, L.post e = [f e]) {store : σ} {t : State σ α}
    {es : List (Event ε ω)} (I : List (ω × ε) → σ → Prop) (hnil : I [] store)
    (haccept : ∀ hs s e s', L.alive s = true → I hs s → L.accept s e = some s' → I hs s')
    (hhandle : ∀ hs s w e, e ∈ externals es → L.alive s = true → I hs s →
      I (hs ++ [(w, e)]) (L.handle s w (f e)))
    (hrun : L.run ⟨store, []⟩ es = some t) : I (heard es) t.store := by
  have hmap : ∀ e, L.post e = [e].map f := by simpa using hpost
  obtain ⟨t', ht', hstore, -⟩ := exists_run_relabel hmap hrun
  have hheard : (L.relabel f fun e => [e]).handled es = heard es := by
    simp [handled, posted, relabel, heard]
  rw [← hstore, ← hheard]
  exact run_handled rfl I hnil (fun hs s e s' _ => haccept hs s e s')
    (fun hs s w e he => hhandle hs s w e (by simpa [posted, relabel] using he)) ht'

end TaskLoop
end PyCtp
