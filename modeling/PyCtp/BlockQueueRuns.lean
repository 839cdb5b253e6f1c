import PyCtp.BlockQueueHandover

/-!
# Runs of the blocks of one producer

In every run the blocks and their index do what the slots of `ProducerQueue` do: no assertion about
them fails, every consumer with an index finds its element, and the pool gets each block back.
-/
namespace PyCtp
open LabelledRuns Tallies

namespace BlockQueue
open ProducerQueue (blockSize circularLessThan)

section Steps
variable {κ δ : Type*} [Fintype κ] [DecidableEq κ] {width : ℕ} {first cls : ℕ → ℕ} {b : ℕ}
  {s t : State κ δ} {c : κ}

/-- Between two increments of a counter that a consumer has read, the others do not go half the
range ahead. -/
def Timely (width : ℕ) (s : State κ δ) (e : Event κ δ) (_ : State κ δ) : Prop :=
  ∀ c o, e = .advance c → s.queue.consumer c = .entering o →
    s.queue.dequeueOvercommit + Fintype.card κ ≤ o + 2 ^ (width - 1)

def Follows (width : ℕ) (s : State κ δ) (e : Event κ δ) (t : State κ δ) : Prop :=
  t.queue = s.queue ∨ ∃ q, ProducerQueue.step width s.queue q = some t.queue ∧
    ∀ c o, q = .advance c → s.queue.consumer c = .entering o → e = .advance c

omit [Fintype κ] in
theorem enqueue_refused (x : δ) (allocated : Bool) {e : Event κ δ} (hp : s.queue.producer = .idle)
    (hrefused : s.queue.refused width allocated = true)
    (ht : t.queue = { s.queue with producer := .returned false }) : Follows width s e t := by
  refine .inr ⟨.enqueue x allocated, ?_, by simp⟩
  rw [ProducerQueue.step, hp, ht]
  dsimp only
  rw [if_pos hrefused]

omit [Fintype κ] in
theorem enqueue_accepted {x : δ} {e : Event κ δ} (hp : s.queue.producer = .idle)
    (haccepted : s.queue.refused width true = false)
    (ht : t.queue = { s.queue with producer := .constructing x }) : Follows width s e t := by
  refine .inr ⟨.enqueue x true, ?_, by simp⟩
  rw [ProducerQueue.step, hp, ht]
  dsimp only
  rw [haccepted, if_neg Bool.false_ne_true]

namespace Inv

theorem insert (hs : Inv width first cls b s) (hwidth : 0 < width)
    (hle : s.queue.headIndex ≤ s.queue.tailIndex) (h : Insert s t) :
    Inv width first cls b t ∧ Follows width s .insert t := by
  cases h with
  | noIndex hi hb => simp [hs.index.current] at hb
  | vacant hi hb hfree =>
    obtain rfl := Option.some.inj (hs.index.current.symm.trans hb)
    exact ⟨hs.vacant hi hfree, .inl rfl⟩
  | taken hi hb hkey hvalue =>
    obtain rfl := Option.some.inj (hs.index.current.symm.trans hb)
    exact ⟨hs.taken hi hkey hvalue, .inl rfl⟩
  | storeKey hi => exact ⟨hs.keying hi, .inl rfl⟩
  | storeNewKey hi hb =>
    obtain rfl := Option.some.inj (hs.index.current.symm.trans hb)
    exact ⟨(hs.grown hi).2, .inl rfl⟩
  | usedKey hi hb hkey =>
    obtain rfl := Option.some.inj (hs.index.current.symm.trans hb)
    exact absurd (hs.grown hi).1 hkey
  | storeTail hi hb =>
    obtain rfl := Option.some.inj (hs.index.current.symm.trans hb)
    exact ⟨hs.storeTail hi, .inl rfl⟩
  | place hi =>
    refine ⟨hs.place hle hi, ?_⟩
    obtain ⟨hp, -, hroom⟩ := hs.room.resolve_left (by simp [hi])
    refine enqueue_accepted hp ?_ rfl
    have hless : circularLessThan width s.queue.headIndex (s.queue.tailIndex + blockSize) =
        true := by
      change _ + 32 < _ at hroom
      apply ProducerQueue.circularLessThan_of_lt hwidth
      · change (s.queue.headIndex : ℤ) < s.queue.tailIndex + (32 : ℕ)
        omega
      · change (s.queue.tailIndex : ℤ) + (32 : ℕ) < s.queue.headIndex + 2 ^ (width - 1)
        exact_mod_cast hroom
    rw [ProducerQueue.State.refused, hless]
    exact Bool.and_false _
  | rewind hi hb =>
    obtain rfl := Option.some.inj (hs.index.current.symm.trans hb)
    exact ⟨hs.rewind hi, .inl rfl⟩
  | @clear x e hi =>
    refine ⟨hs.clearEntry hi, ?_⟩
    obtain ⟨hp, hmod, -⟩ := hs.room.resolve_left (by simp [hi])
    refine enqueue_refused x false hp ?_ rfl
    rw [ProducerQueue.State.refused, hmod]
    simp

theorem lookup (hs : Inv width first cls b s) (hstorage : ProducerQueue.Storage s.queue)
    (hle : s.queue.headIndex ≤ s.queue.tailIndex) (h : Lookup width s c t) :
    Inv width first cls b t ∧ Follows width s (.lookup c) t := by
  have hreading := hs.reading c
  rw [Reading] at hreading
  cases h with
  | header hr hc hb => exact ⟨hs.header hc hb, .inl rfl⟩
  | noHeader hr hc hb => simp [hs.index.current] at hb
  | tail hr => exact ⟨hs.tailRead hr, .inl rfl⟩
  | noKey hr hk =>
    rw [hr] at hreading
    exact absurd hk hreading.2.2.2.2
  | entry hr hk he => exact ⟨hs.entryRead hr hk he, .inl rfl⟩
  | @wrongEntry i h tail k hr hk hwrong =>
    rw [hr] at hreading
    obtain ⟨nb, howns⟩ := hs.indexed_owns hreading.1
    rw [hs.lookup_entry hr hk, Nat.mul_comm (i / blockSize)] at hwrong
    exact absurd (hs.live _ howns.1) hwrong
  | block hr hv => exact ⟨hs.blockRead hr hv, .inl rfl⟩
  | noBlock hr hv =>
    rw [hr] at hreading
    obtain ⟨nb, howns⟩ := hs.indexed_owns hreading.1
    rw [hreading.2] at hv
    exact absurd hv (hs.live _ howns.1).2
  | @move i e nb x hr hx =>
    obtain ⟨hc, howns, helements, -⟩ := hs.found_elements hstorage hle hr
    refine ⟨hs.move hr hc howns x, .inr ⟨.advance c, ?_, ?_⟩⟩
    · have hslot : s.queue.slots i = some x := helements.symm.trans hx
      rw [ProducerQueue.step, ProducerQueue.State.advance, hc]
      dsimp only
      rw [hslot]
      rfl
    · intro c' o hc' ho
      obtain rfl := ProducerQueue.Event.advance.inj hc'
      rw [hc] at ho
      cases ho
  | noElement hr hx =>
    obtain ⟨-, -, helements, hslot⟩ := hs.found_elements hstorage hle hr
    exact absurd (helements.symm.trans hx) hslot
  | setEmpty hr => exact ⟨hs.setEmpty hr, .inl rfl⟩
  | overfull hr hge =>
    obtain ⟨-, hcount, hpos⟩ := hs.read_count hr
    change _ = min 32 _ at hcount
    change 32 ≤ _ at hge
    omega
  | clear hr => exact ⟨hs.clear hle hr, .inl rfl⟩
  | free hr => exact ⟨hs.free hr, .inl rfl⟩

/-- What every step of the queue preserves. -/
theorem step (hs : Inv width first cls b s) (hwidth : 10 ≤ width)
    (htickets : ProducerQueue.Tickets width s.queue) (hstorage : ProducerQueue.Storage s.queue)
    (hrooms : ProducerQueue.Room width s.queue) {e : Event κ δ}
    (he : BlockQueue.step width s e = some t) :
    (∃ first cls b, Inv width first cls b t) ∧ Follows width s e t := by
  have hcommits := htickets.commits_le
  have hle : s.queue.headIndex ≤ s.queue.tailIndex := by omega
  obtain ⟨-, h⟩ := step_cases he
  cases h with
  | @begin x hp hi hend hroom =>
    exact ⟨⟨_, _, _, hs.begin (by omega) hrooms hp hi hend hroom⟩, .inl rfl⟩
  | @full x hp hi hend hfull =>
    refine ⟨⟨_, _, _, hs.full hp hi⟩, enqueue_refused x true hp ?_ rfl⟩
    rw [ProducerQueue.State.refused, hend, hfull]
    rfl
  | inside hp hi hin =>
    refine ⟨⟨_, _, _, hs.inside hp hi hin⟩, enqueue_accepted hp ?_ rfl⟩
    rw [ProducerQueue.State.refused, decide_eq_false hin]
    rfl
  | insert h =>
    obtain ⟨ht, hfollows⟩ := hs.insert (by omega) hle h
    exact ⟨⟨_, _, _, ht⟩, hfollows⟩
  | grow hi hfits =>
    obtain ⟨first', cls', ht⟩ := hs.grow hi hfits
    exact ⟨⟨first', cls', b + 1, ht⟩, .inl rfl⟩
  | @noMemory x hi =>
    obtain ⟨hp, hmod, -⟩ := hs.room.resolve_left (by simp [hi])
    refine ⟨⟨_, _, _, hs.noMemory hi⟩, enqueue_refused x false hp ?_ rfl⟩
    rw [ProducerQueue.State.refused, hmod]
    simp
  | noBlock hi => exact ⟨⟨_, _, _, hs.noBlock hi⟩, .inl rfl⟩
  | requisition hi hfree => exact ⟨⟨_, _, _, hs.requisition hi hfree⟩, .inl rfl⟩
  | construct hp htb =>
    refine ⟨⟨_, _, _, hs.construct hle hp htb⟩, .inr ⟨.construct, ?_, by simp⟩⟩
    rw [ProducerQueue.step, hp]
  | noTail hp htb =>
    obtain ⟨tb, htb', -⟩ := hs.tailBlock_owns hle hp
    simp [htb] at htb'
  | publish hq => exact ⟨⟨_, _, _, hs.publish hq⟩, .inr ⟨_, hq, by simp⟩⟩
  | leaveEnqueue hq => exact ⟨⟨_, _, _, hs.leaveEnqueue hq⟩, .inr ⟨_, hq, by simp⟩⟩
  | tryDequeue hq => exact ⟨⟨_, _, _, hs.tryDequeue hq⟩, .inr ⟨_, hq, by simp⟩⟩
  | advance hc hq =>
    refine ⟨⟨_, _, _, hs.advance hc hcommits hq⟩, .inr ⟨_, hq, fun c' o hc' _ => ?_⟩⟩
    rw [ProducerQueue.Event.advance.inj hc']
  | lookup h =>
    obtain ⟨ht, hfollows⟩ := hs.lookup hstorage hle h
    exact ⟨⟨_, _, _, ht⟩, hfollows⟩
  | leave hr hq => exact ⟨⟨_, _, _, hs.leave hr hq⟩, .inr ⟨_, hq, by simp⟩⟩

end Inv

/-- Without memory for the first index nothing is ever enqueued. -/
structure Unusable (s : State κ δ) : Prop where
  index : s.index.blockIndex = none
  tailIndex : s.queue.tailIndex = 0
  producer : s.queue.producer = .idle ∨ s.queue.producer = .returned false
  insertion : s.insertion = .idle ∨ s.queue.producer = .idle ∧ ∃ x, s.insertion = .testing x
  reader : ∀ c, s.reader c = .idle
  owned : ∀ nb, s.owned nb = false
  intact : s.fault = false

omit [Fintype κ] [DecidableEq κ] in
theorem Unusable.onQueue (hs : Unusable s) {q : ProducerQueue.State κ δ}
    (htail : q.tailIndex = s.queue.tailIndex) (hproducer : q.producer = s.queue.producer) :
    Unusable { s with queue := q } where
  index := hs.index
  tailIndex := htail.trans hs.tailIndex
  producer := by
    dsimp only
    rw [hproducer]
    exact hs.producer
  insertion := by
    dsimp only
    rw [hproducer]
    exact hs.insertion
  reader := hs.reader
  owned := hs.owned
  intact := hs.intact

theorem Unusable.step (hs : Unusable s) (htickets : ProducerQueue.Tickets width s.queue)
    (hstorage : ProducerQueue.Storage s.queue) {e : Event κ δ}
    (he : BlockQueue.step width s e = some t) : Unusable t ∧ Follows width s e t := by
  have hcommits := htickets.commits_le
  rw [hs.tailIndex] at hcommits
  have hindexed : ∀ c i, s.queue.consumer c ≠ .indexed i := by
    intro c i hc
    have := (hstorage.indexed c i hc).1
    omega
  have hplacing : ∀ x, s.queue.producer ≠ .constructing x ∧ s.queue.producer ≠ .publishing x := by
    intro x
    rcases hs.producer with hp | hp
    · simp [hp]
    · simp [hp]
  have htesting : s.insertion = .idle ∨ ∃ x, s.insertion = .testing x :=
    hs.insertion.imp_right fun h => h.2
  obtain ⟨-, h⟩ := step_cases he
  cases h with
  | @begin x hp hi hend hroom =>
    exact ⟨⟨hs.index, hs.tailIndex, .inl hp, .inr ⟨hp, x, rfl⟩, hs.reader, hs.owned, hs.intact⟩,
      .inl rfl⟩
  | @full x hp hi hend hfull =>
    refine ⟨⟨hs.index, hs.tailIndex, .inr rfl, .inl rfl, hs.reader, hs.owned, hs.intact⟩,
      enqueue_refused x true hp ?_ rfl⟩
    rw [ProducerQueue.State.refused, hend, hfull]
    rfl
  | inside hp hi hin =>
    rw [hs.tailIndex] at hin
    exact absurd rfl hin
  | insert h =>
    cases h with
    | @noIndex x hi hb =>
      obtain ⟨hp, -⟩ := hs.insertion.resolve_left (by simp [hi])
      refine ⟨⟨hs.index, hs.tailIndex, .inr rfl, .inl rfl, hs.reader, hs.owned, hs.intact⟩,
        enqueue_refused x false hp ?_ rfl⟩
      rw [ProducerQueue.State.refused, hs.tailIndex]
      simp
    | vacant hi hb => simp [hs.index] at hb
    | taken hi hb => simp [hs.index] at hb
    | _ => simp [*] at htesting
  | publish hq =>
    cases ProducerQueue.step_cases hq with
    | publish hp => exact absurd hp (hplacing _).2
  | leaveEnqueue hq =>
    refine ⟨?_, .inr ⟨_, hq, by simp⟩⟩
    cases ProducerQueue.step_cases hq with
    | leaveEnqueue hp =>
      have hi := hs.insertion.resolve_right fun h => by simp [hp] at h
      exact ⟨hs.index, hs.tailIndex, .inl rfl, .inl hi, hs.reader, hs.owned, hs.intact⟩
  | tryDequeue hq =>
    refine ⟨?_, .inr ⟨_, hq, by simp⟩⟩
    cases ProducerQueue.step_cases hq with
    | tryDequeue hc => exact hs.onQueue rfl rfl
  | advance hc hq =>
    refine ⟨?_, .inr ⟨_, hq, fun c' o hc' _ => ?_⟩⟩
    · cases ProducerQueue.step_cases hq with
      | advance ha => exact hs.onQueue ha.frame.2.2.2.1 ha.frame.2.2.2.2.2
    · rw [ProducerQueue.Event.advance.inj hc']
  | lookup h =>
    cases h with
    | header hr hc => exact absurd hc (hindexed _ _)
    | noHeader hr hc => exact absurd hc (hindexed _ _)
    | _ => simp [hs.reader] at *
  | leave hr hq =>
    refine ⟨?_, .inr ⟨_, hq, by simp⟩⟩
    cases ProducerQueue.step_cases hq with
    | leave hc => exact hs.onQueue rfl rfl
  | construct hp => exact absurd hp (hplacing _).1
  | noTail hp => exact absurd hp (hplacing _).1
  | _ => simp [*] at htesting

end Steps

section Starts
variable {κ δ : Type*} {width : ℕ}

theorem inv_start [Fintype κ] (hwidth : 10 ≤ width) (header : ℕ → BlockIndex.BlockIndexHeader)
    (entry : ℕ → BlockIndex.BlockIndexEntry) (block : ℕ → Block δ) :
    Inv width (fun _ => 0) id 0 (State.start true header entry block : State κ δ) := by
  have hindex := BlockIndex.Indexed.start hwidth header entry
  have hplaced : placed (State.start true header entry block : State κ δ) = 0 := by
    change (0 + 31) / 32 = 0
    decide
  have hbegun : begun (State.start true header entry block : State κ δ) = 0 := by
    rw [begun, hplaced]
    rfl
  have hlive : ∀ n, ¬Live (State.start true header entry block : State κ δ) n :=
    fun n h => absurd (hplaced ▸ h.1) (Nat.not_lt_zero n)
  have hnobody : ∀ o nb,
      ¬Owns (fun _ => 0) 0 (State.start true header entry block : State κ δ) o nb := by
    intro o nb ho
    cases o with
    | block n => exact hlive n ho.1
    | producer => simp [Owns, State.start] at ho
    | consumer c => simp [Owns, State.start] at ho
  refine ⟨by rw [hplaced, hbegun]; exact hindex, ?_, .inl rfl, fun n hn => absurd hn (hlive n),
    fun _ _ ho => absurd ho (hnobody _ _), fun _ _ ho => absurd ho (hnobody _ _),
    fun h => absurd (hplaced ▸ h) (Nat.not_lt_zero _), fun _ _ ho => absurd ho (hnobody _ _),
    fun _ _ _ ho => absurd ho (hnobody _ _), fun _ h => absurd h Bool.false_ne_true, ?_,
    fun _ => trivial, rfl⟩
  · rw [Inserting, hplaced]
    intro hkey
    have hnone := BlockIndex.Indexed.key_start header entry (hindex.slot_lt 0 le_rfl 0)
    exact absurd (hnone.symm.trans hkey) (Option.some_ne_none _).symm
  · intro c i hc
    simp [holding, State.start, ProducerQueue.State.start] at hc

theorem unusable_start (header : ℕ → BlockIndex.BlockIndexHeader)
    (entry : ℕ → BlockIndex.BlockIndexEntry) (block : ℕ → Block δ) :
    Unusable (State.start false header entry block : State κ δ) :=
  ⟨rfl, rfl, .inl rfl, .inl rfl, fun _ => rfl, fun _ => rfl, rfl⟩

end Starts

section Runs
variable {κ δ : Type*} [Fintype κ] [DecidableEq κ] {width : ℕ} {memory : Bool}
  {header : ℕ → BlockIndex.BlockIndexHeader} {entry : ℕ → BlockIndex.BlockIndexEntry}
  {block : ℕ → Block δ} {es : List (Event κ δ)} {s : State κ δ}

omit [Fintype κ] in
theorem overcommit_le_succ {t : State κ δ} {e : Event κ δ} (he : step width s e = some t) :
    t.queue.dequeueOvercommit ≤ s.queue.dequeueOvercommit + 1 := by
  obtain ⟨-, h⟩ := step_cases he
  cases h with
  | insert h => cases h <;> exact Nat.le_succ _
  | lookup h => cases h <;> exact Nat.le_succ _
  | publish hq => exact ProducerQueue.overcommit_le_succ hq
  | leaveEnqueue hq => exact ProducerQueue.overcommit_le_succ hq
  | tryDequeue hq => exact ProducerQueue.overcommit_le_succ hq
  | advance _ hq => exact ProducerQueue.overcommit_le_succ hq
  | leave _ hq => exact ProducerQueue.overcommit_le_succ hq
  | _ => exact Nat.le_succ _

/-- The run of the slots that a run of the blocks follows. -/
theorem follows_of_run (hwidth : 10 ≤ width)
    (hrun : run (step width) (.start memory header entry block) es = some s)
    (htimely : Along (step width) (.start memory header entry block) es (Timely width)) :
    (∃ qs, run (ProducerQueue.step width) .start qs = some s.queue ∧
      Along (ProducerQueue.step width) .start qs (ProducerQueue.Timely width)) ∧
      ((∃ first cls b, Inv width first cls b s) ∨ Unusable s) := by
  refine run_invariant_along (fun s => (∃ qs,
    run (ProducerQueue.step width) .start qs = some s.queue ∧
      Along (ProducerQueue.step width) .start qs (ProducerQueue.Timely width)) ∧
      ((∃ first cls b, Inv width first cls b s) ∨ Unusable s)) (Timely width) ?_ ?_ htimely hrun
  · rintro s e t ⟨⟨qs, hqs, halong⟩, hs⟩ he ht
    obtain ⟨htickets, hstorage⟩ := ProducerQueue.tickets_of_run (by omega) hqs halong
    have hrooms := ProducerQueue.room_of_run (by omega) hqs
    have hnext : ((∃ first cls b, Inv width first cls b t) ∨ Unusable t) ∧
        Follows width s e t := by
      rcases hs with ⟨first, cls, b, hs⟩ | hs
      · exact (hs.step hwidth htickets hstorage hrooms he).imp_left .inl
      · exact (hs.step htickets hstorage he).imp_left .inr
    refine ⟨?_, hnext.1⟩
    rcases hnext.2 with hsame | ⟨q, hq, hadvance⟩
    · exact ⟨qs, hsame ▸ hqs, halong⟩
    · refine ⟨qs ++ [q], run_concat.mpr ⟨_, hqs, hq⟩, along_concat halong fun u v hu _ => ?_⟩
      obtain rfl := Option.some.inj (hqs.symm.trans hu)
      exact fun c o hc ho => ht c o (hadvance c o hc ho) ho
  · refine ⟨⟨[], rfl, fun before e after t u hes => by simp at hes⟩, ?_⟩
    cases memory with
    | true => exact .inl ⟨_, _, _, inv_start hwidth header entry block⟩
    | false => exact .inr (unusable_start header entry block)

end Runs

end BlockQueue
end PyCtp
