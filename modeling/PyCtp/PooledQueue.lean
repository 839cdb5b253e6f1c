import PyCtp.BlockPoolRuns
import PyCtp.BlockQueuePool
import Mathlib.Data.Fintype.Option

/-!
# The blocks of one producer and their pool

The producer calls `requisition_block` in the middle of `enqueue`, and a consumer ends `dequeue`
with `add_block_to_free_list` for a block that is done with. What each of the two relies on, that
the pool gives out no block in use and that nobody gives back a block of another, the other one
keeps.
-/
namespace PyCtp
open LabelledRuns Tallies LinkedChains

namespace PooledQueue
variable {κ δ : Type*}

/-- The producer is `none` among the threads of the pool. -/
structure State (κ δ : Type*) where
  queue : BlockQueue.State κ δ
  pool : BlockPool.State (Option κ)

/-- `receive` is the return of `requisition_block`; `giveBack` the call of
`add_block_to_free_list`. -/
inductive Event (κ δ : Type*)
  | queue (e : BlockQueue.Event κ δ)
  | pool (c : Option κ)
  | create (allocated : Bool)
  | requisition
  | receive (block : Option ℕ)
  | giveBack (c : κ) (block : ℕ)

def State.start (memory : Bool) (header : ℕ → BlockIndex.BlockIndexHeader)
    (entry : ℕ → BlockIndex.BlockIndexEntry) (block : ℕ → BlockQueue.Block δ)
    (initialBlockPoolSize : ℕ) : State κ δ where
  queue := .start memory header entry block
  pool := .start initialBlockPoolSize

/-- Whose step of the queue it is; the calls of the pool are steps of their own. -/
def caller (s : BlockQueue.State κ δ) : BlockQueue.Event κ δ → Option (Option κ)
  | .requisition _ => none
  | .tryDequeue c | .advance c | .leave c => some (some c)
  | .lookup c =>
    match s.reader c with
    | .freeing _ => none
    | _ => some (some c)
  | _ => some none

section Steps
variable [DecidableEq κ] (width : ℕ)

def step (s : State κ δ) : Event κ δ → Option (State κ δ)
  | .queue e =>
    match caller s.queue e with
    | some c =>
      match s.pool.thread c with
      | .idle => (BlockQueue.step width s.queue e).map fun queue => { s with queue := queue }
      | _ => none
    | none => none
  | .pool c => (BlockPool.step s.pool (.advance c)).map fun pool => { s with pool := pool }
  | .create allocated =>
    (BlockPool.step s.pool (.create none allocated)).map fun pool => { s with pool := pool }
  | .requisition =>
    match s.queue.insertion with
    | .inserted _ _ =>
      (BlockPool.step s.pool (.requisitionBlock none)).map fun pool => { s with pool := pool }
    | _ => none
  | .receive block =>
    match s.pool.thread none with
    | .returned r =>
      if r = block then
        (BlockQueue.step width s.queue (.requisition block)).bind fun queue =>
          (BlockPool.step s.pool (.leave none)).map fun pool => ⟨queue, pool⟩
      else none
    | _ => none
  | .giveBack c block =>
    match s.queue.reader c with
    | .freeing nb =>
      if nb = block then
        (BlockQueue.step width s.queue (.lookup c)).bind fun queue =>
          (BlockPool.step s.pool (.addBlockToFreeList (some c) block)).map fun pool =>
            ⟨queue, pool⟩
      else none
    | _ => none

end Steps

section Cases
variable [DecidableEq κ] {width : ℕ} {s t : State κ δ}

inductive Step (width : ℕ) (s : State κ δ) : Event κ δ → State κ δ → Prop
  | queue {e : BlockQueue.Event κ δ} {c : Option κ} {q : BlockQueue.State κ δ}
    (hc : caller s.queue e = some c) (hidle : s.pool.thread c = .idle)
    (hq : BlockQueue.step width s.queue e = some q) : Step width s (.queue e) ⟨q, s.pool⟩
  | pool {c : Option κ} {p : BlockPool.State (Option κ)}
    (hp : BlockPool.step s.pool (.advance c) = some p) : Step width s (.pool c) ⟨s.queue, p⟩
  | create {allocated : Bool} {p : BlockPool.State (Option κ)}
    (hp : BlockPool.step s.pool (.create none allocated) = some p) :
    Step width s (.create allocated) ⟨s.queue, p⟩
  | requisition {x : δ} {e : ℕ} {p : BlockPool.State (Option κ)}
    (hi : s.queue.insertion = .inserted x e)
    (hp : BlockPool.step s.pool (.requisitionBlock none) = some p) :
    Step width s .requisition ⟨s.queue, p⟩
  | receive {block : Option ℕ} {q : BlockQueue.State κ δ} {p : BlockPool.State (Option κ)}
    (hr : s.pool.thread none = .returned block)
    (hq : BlockQueue.step width s.queue (.requisition block) = some q)
    (hp : BlockPool.step s.pool (.leave none) = some p) : Step width s (.receive block) ⟨q, p⟩
  | giveBack {c : κ} {block : ℕ} {q : BlockQueue.State κ δ} {p : BlockPool.State (Option κ)}
    (hr : s.queue.reader c = .freeing block)
    (hq : BlockQueue.step width s.queue (.lookup c) = some q)
    (hp : BlockPool.step s.pool (.addBlockToFreeList (some c) block) = some p) :
    Step width s (.giveBack c block) ⟨q, p⟩

theorem step_cases {e : Event κ δ} (h : step width s e = some t) : Step width s e t := by
  cases e with
  | queue e =>
    rw [step] at h
    split at h
    · rename_i c hc
      split at h
      · rename_i hidle
        obtain ⟨q, hq, rfl⟩ := Option.map_eq_some_iff.mp h
        exact .queue hc hidle hq
      · cases h
    · cases h
  | pool c =>
    obtain ⟨p, hp, rfl⟩ := Option.map_eq_some_iff.mp h
    exact .pool hp
  | create allocated =>
    obtain ⟨p, hp, rfl⟩ := Option.map_eq_some_iff.mp h
    exact .create hp
  | requisition =>
    rw [step] at h
    split at h
    · rename_i x e hi
      obtain ⟨p, hp, rfl⟩ := Option.map_eq_some_iff.mp h
      exact .requisition hi hp
    · cases h
  | receive block =>
    rw [step] at h
    split at h
    · rename_i r hr
      split at h
      · rename_i heq
        subst heq
        obtain ⟨q, hq, h⟩ := Option.bind_eq_some_iff.mp h
        obtain ⟨p, hp, rfl⟩ := Option.map_eq_some_iff.mp h
        exact .receive hr hq hp
      · cases h
    · cases h
  | giveBack c block =>
    rw [step] at h
    split at h
    · rename_i nb hr
      split at h
      · rename_i heq
        subst heq
        obtain ⟨q, hq, h⟩ := Option.bind_eq_some_iff.mp h
        obtain ⟨p, hp, rfl⟩ := Option.map_eq_some_iff.mp h
        exact .giveBack hr hq hp
      · cases h
    · cases h

end Cases

section Frames
variable [DecidableEq κ] {width : ℕ}

theorem owned_of_step {s t : BlockQueue.State κ δ} {e : BlockQueue.Event κ δ} {c : Option κ}
    (hc : caller s e = some c) (he : BlockQueue.step width s e = some t) :
    t.owned = s.owned ∧ (c ≠ none → t.insertion = s.insertion) := by
  obtain ⟨-, h⟩ := BlockQueue.step_cases he
  cases h with
  | insert h =>
    obtain rfl := Option.some.inj hc
    cases h <;> exact ⟨rfl, fun h => absurd rfl h⟩
  | lookup h =>
    cases h with
    | free hr =>
      rw [caller, hr] at hc
      cases hc
    | _ => exact ⟨rfl, fun _ => rfl⟩
  | requisition => cases hc
  | noBlock => cases hc
  | begin =>
    obtain rfl := Option.some.inj hc
    exact ⟨rfl, fun h => absurd rfl h⟩
  | full =>
    obtain rfl := Option.some.inj hc
    exact ⟨rfl, fun h => absurd rfl h⟩
  | grow =>
    obtain rfl := Option.some.inj hc
    exact ⟨rfl, fun h => absurd rfl h⟩
  | noMemory =>
    obtain rfl := Option.some.inj hc
    exact ⟨rfl, fun h => absurd rfl h⟩
  | _ => exact ⟨rfl, fun _ => rfl⟩

theorem lookup_freeing {s t : BlockQueue.State κ δ} {c : κ} {nb : ℕ}
    (hr : s.reader c = .freeing nb) (he : BlockQueue.step width s (.lookup c) = some t) :
    t = { s.readerGoto c .idle with owned := Function.update s.owned nb false } := by
  have hintact : ¬s.fault = true := by simp [(BlockQueue.step_cases he).1]
  rw [BlockQueue.step.eq_def, if_neg hintact] at he
  change s.lookup width c = some t at he
  rw [BlockQueue.State.lookup, hr] at he
  exact (Option.some.inj he).symm

def Adds : BlockPool.Thread → Prop
  | .idle | .adding _ | .knowing _ .add | .linking _ _ .add | .referring _ _ .add |
    .inserting _ _ .add | .retrying _ _ .add => True
  | _ => False

theorem adds_goto {s t : BlockPool.State κ} {c : κ} {k : BlockPool.Thread}
    (hthread : t.thread = Function.update s.thread c k) (hk : Adds k) : Adds (t.thread c) := by
  rw [hthread, Function.update_self]
  exact hk

theorem adds_advance {s t : BlockPool.State κ} {c : κ} (hc : Adds (s.thread c))
    (h : s.advance c = some t) : Adds (t.thread c) ∧ t.out = s.out := by
  rw [BlockPool.State.advance] at h
  cases hk : s.thread c with
  | idle =>
    rw [hk] at h
    cases h
  | adding node =>
    rw [hk] at h
    obtain rfl := Option.some.inj h
    exact ⟨adds_goto rfl (by split <;> trivial), rfl⟩
  | knowing node caller =>
    rw [hk] at h hc
    obtain rfl := Option.some.inj h
    cases caller with
    | add => exact ⟨adds_goto rfl trivial, rfl⟩
    | tryGet head => exact hc.elim
  | linking node head caller =>
    rw [hk] at h hc
    obtain rfl := Option.some.inj h
    cases caller with
    | add => exact ⟨adds_goto rfl trivial, rfl⟩
    | tryGet head => exact hc.elim
  | referring node head caller =>
    rw [hk] at h hc
    obtain rfl := Option.some.inj h
    cases caller with
    | add => exact ⟨adds_goto rfl trivial, rfl⟩
    | tryGet head => exact hc.elim
  | inserting node head caller =>
    rw [hk] at h hc
    obtain rfl := Option.some.inj h
    cases caller with
    | add => split <;> exact ⟨adds_goto rfl trivial, rfl⟩
    | tryGet head => exact hc.elim
  | retrying node head caller =>
    rw [hk] at h hc
    obtain rfl := Option.some.inj h
    cases caller with
    | add => exact ⟨adds_goto rfl (by split <;> trivial), rfl⟩
    | tryGet head => exact hc.elim
  | _ =>
    rw [hk] at hc
    exact hc.elim

end Frames

section Runs
variable [Fintype κ] [DecidableEq κ] {width size : ℕ} {memory : Bool}
  {header : ℕ → BlockIndex.BlockIndexHeader} {entry : ℕ → BlockIndex.BlockIndexEntry}
  {block : ℕ → BlockQueue.Block δ} {s t : State κ δ} {c : κ} {nb : ℕ}

/-- Between two increments of a counter that a consumer has read, the others do not go half the
range ahead. -/
def Timely (width : ℕ) (s : State κ δ) (e : Event κ δ) (_ : State κ δ) : Prop :=
  ∀ c o, e = .queue (.advance c) → s.queue.queue.consumer c = .entering o →
    s.queue.queue.dequeueOvercommit + Fintype.card κ ≤ o + 2 ^ (width - 1)

/-- The callers of the pool have the blocks that the queue uses, and the one that
`requisition_block` returns with. -/
structure Inv (width : ℕ) (memory : Bool) (header : ℕ → BlockIndex.BlockIndexHeader)
    (entry : ℕ → BlockIndex.BlockIndexEntry) (block : ℕ → BlockQueue.Block δ) (s : State κ δ) :
    Prop where
  queue : ∃ qs, run (BlockQueue.step width) (.start memory header entry block) qs =
      some s.queue ∧
    Along (BlockQueue.step width) (.start memory header entry block) qs (BlockQueue.Timely width)
  pool : ∃ l flag, BlockPool.Inv l flag s.pool
  producer : s.pool.thread none ≠ .idle → ∃ x e, s.queue.insertion = .inserted x e
  consumer : ∀ c, Adds (s.pool.thread (some c))
  books : ∀ nb, s.pool.out nb = true ↔
    s.queue.owned nb = true ∨ s.pool.thread none = .returned (some nb)
  apart : ∀ nb, s.queue.owned nb = true → s.pool.thread none ≠ .returned (some nb)

namespace Inv

theorem follow (hs : Inv width memory header entry block s) {e : BlockQueue.Event κ δ}
    {q : BlockQueue.State κ δ} (hq : BlockQueue.step width s.queue e = some q)
    (htimely : ∀ c o, e = .advance c → s.queue.queue.consumer c = .entering o →
      s.queue.queue.dequeueOvercommit + Fintype.card κ ≤ o + 2 ^ (width - 1)) :
    ∃ qs, run (BlockQueue.step width) (.start memory header entry block) qs = some q ∧
      Along (BlockQueue.step width) (.start memory header entry block) qs
        (BlockQueue.Timely width) := by
  obtain ⟨qs, hqs, halong⟩ := hs.queue
  refine ⟨qs ++ [e], run_concat.mpr ⟨_, hqs, hq⟩, along_concat halong fun u v hu _ => ?_⟩
  obtain rfl := Option.some.inj (hqs.symm.trans hu)
  exact htimely

theorem of_pool (hs : Inv width memory header entry block s)
    {p : BlockPool.State (Option κ)} (hpool : ∃ l flag, BlockPool.Inv l flag p)
    (hproducer : p.thread none ≠ .idle → ∃ x e, s.queue.insertion = .inserted x e)
    (hconsumer : ∀ c, Adds (p.thread (some c)))
    (hout : p.out = s.pool.out ∧ (∀ n, p.thread none = .returned (some n) ↔
        s.pool.thread none = .returned (some n)) ∨
      ∃ n, s.pool.out n = false ∧ p.out = Function.update s.pool.out n true ∧
        p.thread none = .returned (some n) ∧ ∀ m, s.pool.thread none ≠ .returned (some m)) :
    Inv width memory header entry block ⟨s.queue, p⟩ where
  queue := hs.queue
  pool := hpool
  producer := hproducer
  consumer := hconsumer
  books nb := by
    have hbooks := hs.books nb
    rcases hout with ⟨hout, hthread⟩ | ⟨n, hn, hout, hthread, hbefore⟩
    · rw [hout, hthread]
      exact hbooks
    · rw [hout, hthread]
      by_cases hnb : nb = n
      · subst hnb
        simp
      · rw [Function.update_of_ne hnb, hbooks]
        have hne : ¬BlockPool.Thread.returned (some n) = .returned (some nb) := by
          intro heq
          exact hnb (Option.some.inj (BlockPool.Thread.returned.inj heq)).symm
        exact ⟨fun h => .inl (h.resolve_right (hbefore nb)), fun h => .inl (h.resolve_right hne)⟩
  apart nb hnb := by
    rcases hout with ⟨-, hthread⟩ | ⟨n, hn, -, hthread, -⟩
    · exact fun h => hs.apart nb hnb ((hthread nb).mp h)
    · intro h
      obtain rfl := Option.some.inj (BlockPool.Thread.returned.inj (hthread.symm.trans h))
      have hout := (hs.books n).mpr (.inl hnb)
      rw [hn] at hout
      cases hout

theorem intact (hs : Inv width memory header entry block s) (hwidth : 10 ≤ width) :
    s.queue.fault = false := by
  obtain ⟨qs, hqs, halong⟩ := hs.queue
  rcases (BlockQueue.follows_of_run hwidth hqs halong).2 with ⟨first, cls, b, hinv⟩ | hunusable
  · exact hinv.intact
  · exact hunusable.intact

theorem freeing_owned (hs : Inv width memory header entry block s) (hwidth : 10 ≤ width)
    (hr : s.queue.reader c = .freeing nb) : s.queue.owned nb = true := by
  obtain ⟨qs, hqs, halong⟩ := hs.queue
  rcases (BlockQueue.follows_of_run hwidth hqs halong).2 with ⟨first, cls, b, hinv⟩ | hunusable
  · exact hinv.owned (.consumer c) nb (.inr hr)
  · rw [hunusable.reader c] at hr
    cases hr

theorem step (hs : Inv width memory header entry block s) (hwidth : 10 ≤ width)
    (hthreads : 2 * Fintype.card (Option κ) + 2 < BlockPool.shouldBeOnFreeList)
    {e : Event κ δ} (he : PooledQueue.step width s e = some t) (htimely : Timely width s e t) :
    Inv width memory header entry block t := by
  obtain ⟨l, flag, hpool⟩ := hs.pool
  cases step_cases he with
  | @queue e c q hc hidle hq =>
    obtain ⟨howned, hinsertion⟩ := owned_of_step hc hq
    refine ⟨hs.follow hq fun c o hec => htimely c o (congrArg Event.queue hec), hs.pool, ?_,
      hs.consumer, fun nb => ?_, fun nb => ?_⟩
    · intro hnone
      have hne : c ≠ none := by
        rintro rfl
        exact hnone hidle
      rw [hinsertion hne]
      exact hs.producer hnone
    · rw [howned]
      exact hs.books nb
    · rw [howned]
      exact hs.apart nb
  | @pool c p hp =>
    obtain ⟨hnext, hmoves⟩ := hpool.step hthreads hp
    have hframe : ∀ i, i ≠ c → p.thread i = s.pool.thread i :=
      fun i hi => BlockPool.step_frame hp hi
    have hadvance : s.pool.advance c = some p := by
      rw [BlockPool.step.eq_def, if_neg (by simp [hpool.intact])] at hp
      exact hp
    cases c with
    | none =>
      have hinside : s.pool.thread none ≠ .idle ∧ ∀ m, s.pool.thread none ≠ .returned m := by
        constructor
        · intro hc
          rw [BlockPool.State.advance, hc] at hadvance
          cases hadvance
        · intro m hc
          rw [BlockPool.State.advance, hc] at hadvance
          cases hadvance
      refine hs.of_pool hnext (fun _ => hs.producer hinside.1)
        (fun c => by rw [hframe _ (Option.some_ne_none c)]; exact hs.consumer c) ?_
      cases hmoves with
      | advance hgives =>
        rcases hgives with ⟨hout, hnever⟩ | ⟨n, hn, hout, hreturned⟩
        · exact .inl ⟨hout, fun n => iff_of_false (hnever n) (hinside.2 _)⟩
        · exact .inr ⟨n, hn, hout, hreturned, fun m => hinside.2 _⟩
    | some c =>
      obtain ⟨hadds, hout⟩ := adds_advance (hs.consumer c) hadvance
      have hnone := hframe none (Option.some_ne_none c).symm
      refine hs.of_pool hnext (by rw [hnone]; exact hs.producer) (fun i => ?_)
        (.inl ⟨hout, fun n => by rw [hnone]⟩)
      by_cases hi : i = c
      · rw [hi]
        exact hadds
      · rw [hframe _ fun heq => hi (Option.some.inj heq)]
        exact hs.consumer i
  | @create allocated p hp =>
    obtain ⟨hnext, hmoves⟩ := hpool.step hthreads hp
    have hcreating : s.pool.thread none = .creating := by
      rw [BlockPool.step.eq_def, if_neg (by simp [hpool.intact])] at hp
      dsimp only at hp
      split at hp
      · rename_i hc
        exact hc
      · cases hp
    refine hs.of_pool hnext (fun _ => hs.producer (by simp [hcreating])) (fun c => ?_) ?_
    · have hframe := BlockPool.step_frame hp (i := some c) (Option.some_ne_none c)
      rw [hframe]
      exact hs.consumer c
    · cases hmoves with
      | create hgives =>
        rcases hgives with ⟨hout, hnever⟩ | ⟨n, hn, hout, hreturned⟩
        · exact .inl ⟨hout, fun n => iff_of_false (hnever n) (by simp [hcreating])⟩
        · exact .inr ⟨n, hn, hout, hreturned, by simp [hcreating]⟩
  | @requisition x e p hi hp =>
    obtain ⟨hnext, hmoves⟩ := hpool.step hthreads hp
    refine hs.of_pool hnext (fun _ => ⟨x, e, hi⟩) (fun c => ?_) ?_
    · have hframe := BlockPool.step_frame hp (i := some c) (Option.some_ne_none c)
      rw [hframe]
      exact hs.consumer c
    · cases hmoves with
      | enter hc ht hout => exact .inl ⟨hout, fun n => by simp [hc, ht]⟩
  | @receive r q p hr hq hp =>
    obtain ⟨hnext, hmoves⟩ := hpool.step hthreads hp
    cases hmoves with
    | leave hc ht hout =>
      have howned : ∀ nb, q.owned nb = true ↔
          s.queue.owned nb = true ∨ s.pool.thread none = .returned (some nb) := by
        intro nb
        obtain ⟨-, h⟩ := BlockQueue.step_cases hq
        cases h with
        | noBlock hi => simp [hr]
        | @requisition x e nb' hi hfree =>
          rw [hr]
          by_cases hnb : nb = nb'
          · subst hnb
            simp
          · have hne : ¬nb' = nb := fun heq => hnb heq.symm
            simp [hnb, hne]
      refine ⟨hs.follow hq (by simp), hnext, fun hne => absurd ht hne, fun c => ?_, fun nb => ?_,
        fun nb _ => by simp [ht]⟩
      · rw [BlockPool.step_frame hp (i := some c) (Option.some_ne_none c)]
        exact hs.consumer c
      · change p.out nb = true ↔ q.owned nb = true ∨ p.thread none = .returned (some nb)
        rw [hout, hs.books nb, howned nb, ht]
        simp
  | @giveBack c nb' q p hr hq hp =>
    obtain ⟨hnext, hmoves⟩ := hpool.step hthreads hp
    have hqueue := lookup_freeing hr hq
    cases hmoves with
    | takes hc hn ht hout =>
      have hnone : p.thread none = s.pool.thread none :=
        BlockPool.step_frame hp (Option.some_ne_none c).symm
      have howned : q.owned = Function.update s.queue.owned nb' false := by rw [hqueue]
      have hin : s.queue.owned nb' = true := hs.freeing_owned hwidth hr
      refine ⟨hs.follow hq (by simp), hnext, ?_, fun i => ?_, fun nb => ?_, fun nb hnb => ?_⟩
      · rw [hqueue]
        exact fun h => hs.producer (hnone ▸ h)
      · by_cases hi : i = c
        · rw [hi]
          exact ht ▸ trivial
        · rw [BlockPool.step_frame hp (i := some i) fun heq => hi (Option.some.inj heq)]
          exact hs.consumer i
      · change p.out nb = true ↔ q.owned nb = true ∨ p.thread none = .returned (some nb)
        rw [hout, howned, hnone]
        by_cases hnb : nb = nb'
        · subst hnb
          simp [hs.apart nb hin]
        · rw [Function.update_of_ne hnb, Function.update_of_ne hnb]
          exact hs.books nb
      · rw [howned] at hnb
        have hne : nb ≠ nb' := by
          rintro rfl
          rw [Function.update_self] at hnb
          cases hnb
        rw [Function.update_of_ne hne] at hnb
        rw [hnone]
        exact hs.apart nb hnb

theorem start : Inv width memory header entry block
    (.start memory header entry block size : State κ δ) where
  queue := ⟨[], rfl, fun before e after t u hes => by simp at hes⟩
  pool := ⟨_, _, BlockPool.inv_start size⟩
  producer h := absurd rfl h
  consumer _ := trivial
  books nb := by cases memory <;> simp [State.start, BlockPool.State.start, BlockQueue.State.start]
  apart nb h := by cases memory <;> cases h

end Inv

omit [Fintype κ] in
theorem overcommit_le_succ {e : Event κ δ} (he : step width s e = some t) :
    t.queue.queue.dequeueOvercommit ≤ s.queue.queue.dequeueOvercommit + 1 := by
  cases step_cases he with
  | queue _ _ hq => exact BlockQueue.overcommit_le_succ hq
  | receive _ hq => exact BlockQueue.overcommit_le_succ hq
  | giveBack _ hq => exact BlockQueue.overcommit_le_succ hq
  | _ => exact Nat.le_succ _

end Runs

end PooledQueue
end PyCtp
