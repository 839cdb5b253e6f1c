import PyCtp.ProducerQueue

/-!
# Runs of the elements of one producer

Tickets are handed out in order, and each is good only if at most as many tickets before it
were good as there are elements. So no index is taken that the producer has not published, in
whatever order consumers take tickets, test them and take indices.
-/
namespace PyCtp
open LabelledRuns Tallies

namespace ProducerQueue
variable {κ δ : Type*} {width : ℕ}

theorem of_update [DecidableEq κ] {α : Type*} {f : κ → α} {c i : κ} {a b : α}
    (h : Function.update f c a i = b) : i = c ∧ a = b ∨ i ≠ c ∧ f i = b := by
  by_cases hi : i = c
  · subst hi
    rw [Function.update_self] at h
    exact .inl ⟨rfl, h⟩
  · rw [Function.update_of_ne hi] at h
    exact .inr ⟨hi, h⟩

variable [Fintype κ]

/-- The tickets and the counters. The tickets below `m` cover all good ones, and an open ticket
from `m` on is preceded by the overcommit of its consumer, all good tickets and the open ones
below it. -/
structure Tickets (width : ℕ) (s : State κ δ) : Prop where
  count : s.dequeueOptimisticCount = s.headIndex + s.dequeueOvercommit +
    total Consumer.claims s.consumer + total Consumer.commits s.consumer +
      total Consumer.overcommits s.consumer
  loaded_le : ∀ c o, (s.consumer c).loaded = some o → o ≤ s.dequeueOvercommit
  ticket_lt : ∀ c o d, s.consumer c = .claimed o d → d < s.dequeueOptimisticCount
  ticket_inj : ∀ c c' o o' d, s.consumer c = .claimed o d → s.consumer c' = .claimed o' d → c = c'
  fresh : ∀ c o d, s.consumer c = .claimed o d → o ≤ d ∧ d ≤ o + s.tailIndex + 2 ^ (width - 1)
  good : ∃ m ≤ s.dequeueOptimisticCount,
    s.headIndex + total Consumer.commits s.consumer + total (Consumer.claimsBelow m) s.consumer ≤
        s.tailIndex ∧
      ∀ c o d, s.consumer c = .claimed o d → m ≤ d →
        o + s.headIndex + total Consumer.commits s.consumer +
          total (Consumer.claimsBelow d) s.consumer ≤ d

/-- While a consumer gets from loading the overcommit to its ticket, the others give back fewer
tickets than half the range of the counters. -/
def Timely [DecidableEq κ] (width : ℕ) (s : State κ δ) (e : Event κ δ) (_ : State κ δ) : Prop :=
  ∀ c o, e = .advance c → s.consumer c = .entering o →
    s.dequeueOvercommit + Fintype.card κ ≤ o + 2 ^ (width - 1)

theorem tickets_start : Tickets width (State.start : State κ δ) where
  count := by
    have hzero : ∀ w : Consumer δ → ℕ, w .idle = 0 → total w (fun _ : κ => .idle) = 0 :=
      fun w hw => total_eq_zero fun _ => hw
    simp only [State.start, hzero _ (rfl : Consumer.claims .idle = 0),
      hzero _ (rfl : Consumer.commits .idle = 0), hzero _ (rfl : Consumer.overcommits .idle = 0)]
  loaded_le c o h := by cases h
  ticket_lt c o d h := by cases h
  ticket_inj c c' o o' d h := by cases h
  fresh c o d h := by cases h
  good := by
    have hzero : ∀ w : Consumer δ → ℕ, w .idle = 0 → total w (fun _ : κ => .idle) = 0 :=
      fun w hw => total_eq_zero fun _ => hw
    refine ⟨0, le_rfl, ?_, fun c o d h => by cases h⟩
    simp only [State.start, hzero _ (rfl : Consumer.commits .idle = 0),
      hzero _ (rfl : Consumer.claimsBelow 0 .idle = 0), le_refl]

namespace Tickets
variable {s t : State κ δ} {c : κ}

theorem commits_le (h : Tickets width s) :
    s.headIndex + total Consumer.commits s.consumer ≤ s.tailIndex := by
  obtain ⟨m, -, hm, -⟩ := h.good
  omega

theorem claimsBelow_le (d : ℕ) (f : κ → Consumer δ) :
    total (Consumer.claimsBelow d) f ≤ total Consumer.claims f := by
  apply total_le_total
  intro i
  cases f i with
  | claimed o d' =>
    rw [Consumer.claimsBelow, Consumer.claims]
    split <;> omega
  | _ => exact le_rfl

variable [DecidableEq κ]

theorem goto (h : Tickets width s) {k : Consumer δ} (hfrom : (s.consumer c).Free) (hto : k.Free)
    (hloaded : ∀ o, k.loaded = some o →
      (s.consumer c).loaded = some o ∨ o = s.dequeueOvercommit) :
    Tickets width (s.goto c k) := by
  have hfree : ∀ j : Consumer δ, j.Free → j.claims = 0 ∧ j.commits = 0 ∧ j.overcommits = 0 ∧
      ∀ d, j.claimsBelow d = 0 := by
    intro j hj
    cases j with
    | claimed => cases hj
    | committed => cases hj
    | overcommitted => cases hj
    | _ => exact ⟨rfl, rfl, rfl, fun _ => rfl⟩
  obtain ⟨hc1, hc2, hc3, hc4⟩ := hfree _ hfrom
  obtain ⟨hk1, hk2, hk3, hk4⟩ := hfree _ hto
  have hsame : ∀ w : Consumer δ → ℕ, w (s.consumer c) = 0 → w k = 0 →
      total w (s.goto c k).consumer = total w s.consumer := by
    intro w hw hw'
    have hu := total_update w s.consumer c k
    simp only [State.goto]
    omega
  have hticket : ∀ i o d, (s.goto c k).consumer i = .claimed o d → s.consumer i = .claimed o d := by
    intro i o d hi
    obtain ⟨-, rfl⟩ | ⟨-, hi⟩ := of_update hi
    · cases hto
    · exact hi
  obtain ⟨m, hm, hle, hgood⟩ := h.good
  refine ⟨?_, ?_, fun i o d hi => h.ticket_lt i o d (hticket i o d hi),
    fun i j o o' d hi hj => h.ticket_inj i j o o' d (hticket _ _ _ hi) (hticket _ _ _ hj),
    fun i o d hi => h.fresh i o d (hticket i o d hi), m, hm, ?_, ?_⟩
  · rw [hsame _ hc1 hk1, hsame _ hc2 hk2, hsame _ hc3 hk3]
    exact h.count
  · intro i o hi
    by_cases hic : i = c
    · subst hic
      simp only [State.goto, Function.update_self] at hi
      rcases hloaded o hi with hold | rfl
      · exact h.loaded_le i o hold
      · exact le_rfl
    · simp only [State.goto, Function.update_of_ne hic] at hi
      exact h.loaded_le i o hi
  · rw [hsame _ hc2 hk2, hsame _ (hc4 m) (hk4 m)]
    exact hle
  · intro i o d hi hmd
    rw [hsame _ hc2 hk2, hsame _ (hc4 d) (hk4 d)]
    exact hgood i o d (hticket i o d hi) hmd

theorem claim (h : Tickets width s) {o : ℕ} (hc : s.consumer c = .entering o)
    (htimely : s.dequeueOvercommit + Fintype.card κ ≤ o + 2 ^ (width - 1)) :
    Tickets width { s.goto c (.claimed o s.dequeueOptimisticCount) with
      dequeueOptimisticCount := s.dequeueOptimisticCount + 1 } := by
  have hold : o ≤ s.dequeueOvercommit := h.loaded_le c o (by rw [hc]; rfl)
  have hcount := h.count
  have hcommits := h.commits_le
  have hcard : total Consumer.claims s.consumer + total Consumer.overcommits s.consumer ≤
      Fintype.card κ := by
    have hsum : total (fun k => Consumer.claims k + Consumer.overcommits k) s.consumer =
        total Consumer.claims s.consumer + total Consumer.overcommits s.consumer :=
      Finset.sum_add_distrib
    rw [← hsum]
    apply total_le_card
    intro i
    cases s.consumer i <;> simp [Consumer.claims, Consumer.overcommits]
  have hclaims := total_update Consumer.claims s.consumer c (.claimed o s.dequeueOptimisticCount)
  have hcom := total_update Consumer.commits s.consumer c (.claimed o s.dequeueOptimisticCount)
  have hover := total_update Consumer.overcommits s.consumer c
    (.claimed o s.dequeueOptimisticCount)
  have hbelow := fun d => total_update (Consumer.claimsBelow d) s.consumer c
    (.claimed o s.dequeueOptimisticCount)
  simp only [hc, Consumer.claims, Consumer.commits, Consumer.overcommits, Consumer.claimsBelow]
    at hclaims hcom hover hbelow
  obtain ⟨m, hm, hle, hgood⟩ := h.good
  refine ⟨?_, ?_, ?_, ?_, ?_, m, Nat.le_succ_of_le hm, ?_, ?_⟩
  · simp only [State.goto]
    omega
  · intro i o' hi
    by_cases hic : i = c
    · subst hic
      simp only [State.goto, Function.update_self] at hi
      obtain rfl := Option.some.inj hi
      exact hold
    · simp only [State.goto, Function.update_of_ne hic] at hi
      exact h.loaded_le i o' hi
  · intro i o' d hi
    obtain ⟨-, hd⟩ | ⟨-, hi⟩ := of_update hi
    · cases hd
      exact Nat.lt_succ_self _
    · exact Nat.lt_succ_of_lt (h.ticket_lt i o' d hi)
  · intro i j o₁ o₂ d hi hj
    obtain ⟨rfl, hdi⟩ | ⟨-, hold⟩ := of_update hi
    · obtain ⟨rfl, -⟩ | ⟨-, hold⟩ := of_update hj
      · rfl
      · cases hdi
        exact absurd (h.ticket_lt j _ _ hold) (lt_irrefl _)
    · obtain ⟨rfl, hdj⟩ | ⟨-, hold'⟩ := of_update hj
      · cases hdj
        exact absurd (h.ticket_lt i _ _ hold) (lt_irrefl _)
      · exact h.ticket_inj i j o₁ o₂ d hold hold'
  · intro i o' d hi
    obtain ⟨-, hd⟩ | ⟨-, hi⟩ := of_update hi
    · cases hd
      simp only [State.goto]
      omega
    · exact h.fresh i o' d hi
  · have hb := hbelow m
    rw [if_neg (not_lt.mpr hm)] at hb
    simp only [State.goto]
    omega
  · intro i o' d hi hmd
    have hb := hbelow d
    obtain ⟨-, hd⟩ | ⟨-, hi⟩ := of_update hi
    · cases hd
      have hclaimsBelow := claimsBelow_le s.dequeueOptimisticCount s.consumer
      rw [if_neg (lt_irrefl _)] at hb
      simp only [State.goto]
      omega
    · have hg := hgood i o' d hi hmd
      rw [if_neg (not_lt.mpr (h.ticket_lt i o' d hi).le)] at hb
      simp only [State.goto]
      omega

/-- A ticket that is found good is good: with it there are no more good ones than elements. -/
theorem commit (hwidth : 0 < width) (h : Tickets width s) {o d : ℕ}
    (hc : s.consumer c = .claimed o d)
    (htest : circularLessThan width (d - o) s.tailIndex = true) :
    Tickets width (s.goto c .committed) := by
  have hlt : d < o + s.tailIndex := by
    have hfresh := (h.fresh c o d hc).2
    have hle : (d : ℤ) - o ≤ s.tailIndex + 2 ^ (width - 1) := by
      have : (d : ℤ) ≤ o + s.tailIndex + 2 ^ (width - 1) := by exact_mod_cast hfresh
      omega
    have := lt_of_circularLessThan hwidth hle htest
    omega
  have hcount := h.count
  have hclaims := total_update Consumer.claims s.consumer c .committed
  have hcom := total_update Consumer.commits s.consumer c .committed
  have hover := total_update Consumer.overcommits s.consumer c .committed
  have hbelow := fun n => total_update (Consumer.claimsBelow n) s.consumer c .committed
  simp only [hc, Consumer.claims, Consumer.commits, Consumer.overcommits, Consumer.claimsBelow]
    at hclaims hcom hover hbelow
  have hticket : ∀ i o' d', (s.goto c .committed).consumer i = .claimed o' d' →
      i ≠ c ∧ s.consumer i = .claimed o' d' := by
    intro i o' d' hi
    obtain ⟨-, hcom⟩ | ⟨hne, hi⟩ := of_update hi
    · cases hcom
    · exact ⟨hne, hi⟩
  obtain ⟨m, hm, hle, hgood⟩ := h.good
  have hlast : ∀ i o' d', (s.goto c .committed).consumer i = .claimed o' d' → m ≤ d' → d < d' →
      o' + s.headIndex + total Consumer.commits (s.goto c .committed).consumer +
        total (Consumer.claimsBelow d') (s.goto c .committed).consumer ≤ d' := by
    intro i o' d' hi hmd hdd
    have hg := hgood i o' d' (hticket i o' d' hi).2 hmd
    have hb := hbelow d'
    rw [if_pos hdd] at hb
    simp only [State.goto]
    omega
  refine ⟨?_, ?_, fun i o' d' hi => h.ticket_lt i o' d' (hticket _ _ _ hi).2,
    fun i j o₁ o₂ d' hi hj => h.ticket_inj i j o₁ o₂ d' (hticket _ _ _ hi).2 (hticket _ _ _ hj).2,
    fun i o' d' hi => h.fresh i o' d' (hticket _ _ _ hi).2, ?_⟩
  · simp only [State.goto]
    omega
  · intro i o' hi
    by_cases hic : i = c
    · subst hic
      simp only [State.goto, Function.update_self] at hi
      cases hi
    · simp only [State.goto, Function.update_of_ne hic] at hi
      exact h.loaded_le i o' hi
  · by_cases hmd : m ≤ d
    · have hnext : total (Consumer.claimsBelow (d + 1)) (s.goto c .committed).consumer =
          total (Consumer.claimsBelow d) (s.goto c .committed).consumer := by
        apply total_congr
        intro i
        cases hi : (s.goto c .committed).consumer i with
        | claimed o' d' =>
          obtain ⟨hne, hi⟩ := hticket i o' d' hi
          have hdd : d' ≠ d := by
            rintro rfl
            exact hne (h.ticket_inj i c o' o d' hi hc)
          simp only [Consumer.claimsBelow]
          split <;> split <;> omega
        | _ => rfl
      have hg := hgood c o d hc hmd
      have hb := hbelow d
      rw [if_neg (lt_irrefl d)] at hb
      refine ⟨d + 1, h.ticket_lt c o d hc, ?_, ?_⟩
      · rw [hnext]
        simp only [State.goto]
        omega
      · exact fun i o' d' hi hd => hlast i o' d' hi (by omega) (by omega)
    · have hb := hbelow m
      rw [if_pos (not_le.mp hmd)] at hb
      refine ⟨m, hm, ?_, ?_⟩
      · simp only [State.goto]
        omega
      · exact fun i o' d' hi hd => hlast i o' d' hi hd (by omega)

theorem resolve (h : Tickets width s) {k : Consumer δ} (hk : k.loaded = none)
    (hconsumer : t.consumer = Function.update s.consumer c k)
    (hopt : t.dequeueOptimisticCount = s.dequeueOptimisticCount)
    (hover : s.dequeueOvercommit ≤ t.dequeueOvercommit) (htail : t.tailIndex = s.tailIndex)
    (hgoods : t.headIndex + total Consumer.commits t.consumer =
      s.headIndex + total Consumer.commits s.consumer)
    (hbads : t.dequeueOvercommit + total Consumer.claims t.consumer +
        total Consumer.overcommits t.consumer =
      s.dequeueOvercommit + total Consumer.claims s.consumer +
        total Consumer.overcommits s.consumer) : Tickets width t := by
  have hnot : ∀ o d, k ≠ .claimed o d := by
    rintro o d rfl
    cases hk
  have hticket : ∀ i o d, t.consumer i = .claimed o d → s.consumer i = .claimed o d := by
    intro i o d hi
    rw [hconsumer] at hi
    obtain ⟨-, heq⟩ | ⟨-, hi⟩ := of_update hi
    · exact absurd heq (hnot o d)
    · exact hi
  have hbelow : ∀ d, total (Consumer.claimsBelow d) t.consumer ≤
      total (Consumer.claimsBelow d) s.consumer := by
    intro d
    have hu := total_update (Consumer.claimsBelow d) s.consumer c k
    have hzero : k.claimsBelow d = 0 := by
      cases k with
      | claimed o d => exact absurd rfl (hnot o d)
      | _ => rfl
    rw [hconsumer]
    omega
  have hcount := h.count
  obtain ⟨m, hm, hle, hgood⟩ := h.good
  refine ⟨by omega, ?_, fun i o d hi => hopt ▸ h.ticket_lt i o d (hticket i o d hi),
    fun i j o o' d hi hj => h.ticket_inj i j o o' d (hticket _ _ _ hi) (hticket _ _ _ hj),
    fun i o d hi => htail ▸ h.fresh i o d (hticket i o d hi), m, hopt ▸ hm, ?_, ?_⟩
  · intro i o hi
    rw [hconsumer] at hi
    by_cases hic : i = c
    · subst hic
      rw [Function.update_self, hk] at hi
      cases hi
    · rw [Function.update_of_ne hic] at hi
      exact (h.loaded_le i o hi).trans hover
  · have hb := hbelow m
    omega
  · intro i o d hi hmd
    have hg := hgood i o d (hticket i o d hi) hmd
    have hb := hbelow d
    omega

theorem advance (hwidth : 0 < width) (h : Tickets width s) (ha : Advance width s c t)
    (htimely : ∀ o, s.consumer c = .entering o →
      s.dequeueOvercommit + Fintype.card κ ≤ o + 2 ^ (width - 1)) : Tickets width t := by
  have hclaims := fun k => total_update Consumer.claims s.consumer c k
  have hcommits := fun k => total_update Consumer.commits s.consumer c k
  have hovercommits := fun k => total_update Consumer.overcommits s.consumer c k
  cases ha with
  | goto hfrom hto htaken hinside hloaded => exact h.goto hfrom hto hloaded
  | claim hc => exact h.claim hc (htimely _ hc)
  | commit hc hgood => exact h.commit hwidth hc hgood
  | overcommit hc =>
    have h1 := hclaims .overcommitted
    have h2 := hcommits .overcommitted
    have h3 := hovercommits .overcommitted
    simp only [hc, Consumer.claims, Consumer.commits, Consumer.overcommits] at h1 h2 h3
    refine h.resolve (c := c) (k := .overcommitted) rfl rfl rfl le_rfl rfl ?_ ?_
    · simp only [State.goto]
      omega
    · simp only [State.goto]
      omega
  | index hc =>
    have h1 := hclaims (.indexed s.headIndex)
    have h2 := hcommits (.indexed s.headIndex)
    have h3 := hovercommits (.indexed s.headIndex)
    simp only [hc, Consumer.claims, Consumer.commits, Consumer.overcommits] at h1 h2 h3
    refine h.resolve (c := c) (k := .indexed s.headIndex) rfl rfl rfl le_rfl rfl ?_ ?_
    · simp only [State.goto]
      omega
    · simp only [State.goto]
      omega
  | giveUp hc =>
    have h1 := hclaims (.returned none)
    have h2 := hcommits (.returned none)
    have h3 := hovercommits (.returned none)
    simp only [hc, Consumer.claims, Consumer.commits, Consumer.overcommits] at h1 h2 h3
    refine h.resolve (c := c) (k := .returned none) rfl rfl rfl (Nat.le_succ _) rfl ?_ ?_
    · simp only [State.goto]
      omega
    · simp only [State.goto]
      omega
  | @receive i x hc hx =>
    have h1 := hclaims (.returned (some x))
    have h2 := hcommits (.returned (some x))
    have h3 := hovercommits (.returned (some x))
    simp only [hc, Consumer.claims, Consumer.commits, Consumer.overcommits] at h1 h2 h3
    refine h.resolve (c := c) (k := .returned (some x)) rfl rfl rfl le_rfl rfl ?_ ?_
    · simp only [State.goto]
      omega
    · simp only [State.goto]
      omega
  | fault hc hnone =>
    exact ⟨h.count, h.loaded_le, h.ticket_lt, h.ticket_inj, h.fresh, h.good⟩

omit [DecidableEq κ] in
theorem publish (h : Tickets width s) : Tickets width { s with tailIndex := s.tailIndex + 1 } := by
  obtain ⟨m, hm, hle, hgood⟩ := h.good
  refine ⟨h.count, h.loaded_le, h.ticket_lt, h.ticket_inj, fun i o d hi => ?_, m, hm,
    Nat.le_succ_of_le hle, hgood⟩
  have hf := h.fresh i o d hi
  dsimp only
  omega

theorem step (hwidth : 0 < width) (h : Tickets width s) {e : Event κ δ}
    (he : ProducerQueue.step width s e = some t) (htimely : Timely width s e t) :
    Tickets width t := by
  cases step_cases he with
  | publish =>
    have hp := h.publish
    exact ⟨hp.count, hp.loaded_le, hp.ticket_lt, hp.ticket_inj, hp.fresh, hp.good⟩
  | tryDequeue hc => exact h.goto (by rw [hc]; trivial) trivial fun o ho => by cases ho
  | @advance c t ha => exact h.advance hwidth ha fun o ho => htimely c o rfl ho
  | leave hc => exact h.goto (by rw [hc]; trivial) trivial fun o ho => by cases ho
  | _ => exact ⟨h.count, h.loaded_le, h.ticket_lt, h.ticket_inj, h.fresh, h.good⟩

end Tickets

omit [Fintype κ] in
/-- The slots hold what was enqueued, from the head on and for the indices taken; each index below
the head is held by one consumer or has been received. -/
structure Storage (s : State κ δ) : Prop where
  length : s.enqueued.length = s.tailIndex
  waiting : ∀ i, s.headIndex ≤ i → i < s.tailIndex → s.slots i = s.enqueued[i]?
  publishing : ∀ x, s.producer = .publishing x → s.slots s.tailIndex = some x
  indexed : ∀ c i, s.consumer c = .indexed i → i < s.headIndex ∧ s.slots i = s.enqueued[i]?
  index_inj : ∀ c c' i, s.consumer c = .indexed i → s.consumer c' = .indexed i → c = c'
  received : ∀ r ∈ s.received, r.1 < s.headIndex ∧ s.enqueued[r.1]? = some r.2
  received_nodup : (s.received.map Prod.fst).Nodup
  not_received : ∀ c i, s.consumer c = .indexed i → i ∉ s.received.map Prod.fst
  complete : ∀ i < s.headIndex, (∃ c, s.consumer c = .indexed i) ∨ i ∈ s.received.map Prod.fst
  intact : s.broken = false

omit [Fintype κ] in
theorem storage_start : Storage (State.start : State κ δ) where
  length := rfl
  waiting i _ hi := absurd hi (Nat.not_lt_zero i)
  publishing x h := by cases h
  indexed c i h := by cases h
  index_inj c c' i h := by cases h
  received r hr := by cases hr
  received_nodup := List.nodup_nil
  not_received c i h := by cases h
  complete i hi := absurd hi (Nat.not_lt_zero i)
  intact := rfl

namespace Storage
variable [DecidableEq κ] {s t : State κ δ} {c : κ}

omit [Fintype κ] in
theorem goto (h : Storage s) {k : Consumer δ} (hfrom : ∀ i, s.consumer c ≠ .indexed i)
    (hto : ∀ i, k ≠ .indexed i) : Storage (s.goto c k) := by
  have hindexed : ∀ j i, (s.goto c k).consumer j = .indexed i → s.consumer j = .indexed i := by
    intro j i hj
    obtain ⟨-, heq⟩ | ⟨-, hj⟩ := of_update hj
    · exact absurd heq (hto i)
    · exact hj
  refine ⟨h.length, h.waiting, h.publishing, fun j i hj => h.indexed j i (hindexed j i hj),
    fun j j' i hj hj' => h.index_inj j j' i (hindexed j i hj) (hindexed j' i hj'), h.received,
    h.received_nodup, fun j i hj => h.not_received j i (hindexed j i hj), fun i hi => ?_, h.intact⟩
  rcases h.complete i hi with ⟨j, hj⟩ | hrec
  · refine .inl ⟨j, ?_⟩
    have hjc : j ≠ c := by
      rintro rfl
      exact hfrom i hj
    simp only [State.goto, Function.update_of_ne hjc]
    exact hj
  · exact .inr hrec

omit [Fintype κ] in
/-- The next index is that of a published element that nobody holds. -/
theorem index (h : Storage s) (hc : s.consumer c = .committed) (hlt : s.headIndex < s.tailIndex) :
    Storage { s.goto c (.indexed s.headIndex) with headIndex := s.headIndex + 1 } where
  length := h.length
  waiting i hi ht := h.waiting i (by dsimp only at hi; omega) ht
  publishing := h.publishing
  indexed j i hj := by
    obtain ⟨-, heq⟩ | ⟨-, hj⟩ := of_update hj
    · cases heq
      exact ⟨Nat.lt_succ_self _, h.waiting _ le_rfl hlt⟩
    · exact ⟨Nat.lt_succ_of_lt (h.indexed j i hj).1, (h.indexed j i hj).2⟩
  index_inj j j' i hj hj' := by
    obtain ⟨rfl, heq⟩ | ⟨-, hold⟩ := of_update hj
    · obtain ⟨rfl, -⟩ | ⟨-, hold⟩ := of_update hj'
      · rfl
      · cases heq
        exact absurd (h.indexed j' _ hold).1 (lt_irrefl _)
    · obtain ⟨rfl, heq⟩ | ⟨-, hold'⟩ := of_update hj'
      · cases heq
        exact absurd (h.indexed j _ hold).1 (lt_irrefl _)
      · exact h.index_inj j j' i hold hold'
  received r hr := ⟨Nat.lt_succ_of_lt (h.received r hr).1, (h.received r hr).2⟩
  received_nodup := h.received_nodup
  not_received j i hj := by
    obtain ⟨-, heq⟩ | ⟨-, hj⟩ := of_update hj
    · cases heq
      intro hmem
      obtain ⟨r, hr, hri⟩ := List.mem_map.mp hmem
      exact absurd (hri ▸ (h.received r hr).1) (lt_irrefl _)
    · exact h.not_received j i hj
  complete i hi := by
    rcases Nat.lt_succ_iff_lt_or_eq.mp hi with hi | rfl
    · rcases h.complete i hi with ⟨j, hj⟩ | hrec
      · refine .inl ⟨j, ?_⟩
        have hjc : j ≠ c := by
          rintro rfl
          rw [hc] at hj
          cases hj
        simp only [State.goto, Function.update_of_ne hjc]
        exact hj
      · exact .inr hrec
    · exact .inl ⟨c, by simp [State.goto]⟩
  intact := h.intact

omit [Fintype κ] in
theorem receive (h : Storage s) {i : ℕ} {x : δ} (hle : s.headIndex ≤ s.tailIndex)
    (hc : s.consumer c = .indexed i) (hx : s.slots i = some x) :
    Storage { s.goto c (.returned (some x)) with
      slots := Function.update s.slots i none
      received := s.received ++ [(i, x)] } := by
  have hi := h.indexed c i hc
  have hother : ∀ j k, (s.goto c (.returned (some x))).consumer j = .indexed k →
      s.consumer j = .indexed k ∧ k ≠ i := by
    intro j k hj
    obtain ⟨-, heq⟩ | ⟨hjc, hj⟩ := of_update hj
    · cases heq
    · refine ⟨hj, ?_⟩
      rintro rfl
      exact hjc (h.index_inj j c _ hj hc)
  refine ⟨h.length, fun k hk hkt => ?_, fun y hy => ?_, fun j k hj => ?_, fun j j' k hj hj' => ?_,
    ?_, ?_, fun j k hj => ?_, fun k hk => ?_, h.intact⟩
  · have hki : k ≠ i := by
      rintro rfl
      exact absurd hi.1 (not_lt.mpr hk)
    exact (Function.update_of_ne hki _ _).trans (h.waiting k hk hkt)
  · have hti : s.tailIndex ≠ i := by
      intro heq
      have hlt := hi.1
      omega
    exact (Function.update_of_ne hti _ _).trans (h.publishing y hy)
  · obtain ⟨hj, hki⟩ := hother j k hj
    exact ⟨(h.indexed j k hj).1, (Function.update_of_ne hki _ _).trans (h.indexed j k hj).2⟩
  · exact h.index_inj j j' k (hother j k hj).1 (hother j' k hj').1
  · refine List.forall_mem_append.mpr ⟨h.received, List.forall_mem_singleton.mpr ⟨hi.1, ?_⟩⟩
    exact hi.2.symm.trans hx
  · rw [List.map_append, List.map_singleton]
    refine List.nodup_append.mpr ⟨h.received_nodup, List.nodup_singleton _, ?_⟩
    intro k hk k' hk' heq
    obtain rfl : k = i := heq.trans (List.mem_singleton.mp hk')
    exact h.not_received c k hc hk
  · obtain ⟨hj, hki⟩ := hother j k hj
    rw [List.map_append, List.map_singleton, List.mem_append, List.mem_singleton, not_or]
    exact ⟨h.not_received j k hj, hki⟩
  · rw [List.map_append, List.map_singleton, List.mem_append, List.mem_singleton]
    rcases h.complete k hk with ⟨j, hj⟩ | hrec
    · by_cases hjc : j = c
      · subst hjc
        rw [hc] at hj
        cases hj
        exact .inr (.inr rfl)
      · refine .inl ⟨j, ?_⟩
        simp only [State.goto, Function.update_of_ne hjc]
        exact hj
    · exact .inr (.inl hrec)

omit [Fintype κ] [DecidableEq κ] in
theorem construct (h : Storage s) (x : δ) (hle : s.headIndex ≤ s.tailIndex) :
    Storage { s with
      slots := Function.update s.slots s.tailIndex (some x)
      producer := .publishing x } where
  length := h.length
  waiting i hi ht := (Function.update_of_ne ht.ne _ _).trans (h.waiting i hi ht)
  publishing y hy := by
    cases hy
    exact Function.update_self ..
  indexed j i hj := by
    have hi := h.indexed j i hj
    have hne : i ≠ s.tailIndex := by omega
    exact ⟨hi.1, (Function.update_of_ne hne _ _).trans hi.2⟩
  index_inj := h.index_inj
  received := h.received
  received_nodup := h.received_nodup
  not_received := h.not_received
  complete := h.complete
  intact := h.intact

omit [Fintype κ] [DecidableEq κ] in
theorem publish (h : Storage s) {x : δ} (hp : s.producer = .publishing x)
    (hle : s.headIndex ≤ s.tailIndex) :
    Storage { s with
      tailIndex := s.tailIndex + 1
      producer := .returned true
      enqueued := s.enqueued ++ [x] } := by
  have hlen := h.length
  have hold : ∀ i, i < s.tailIndex → (s.enqueued ++ [x])[i]? = s.enqueued[i]? := by
    intro i hi
    exact List.getElem?_append_left (hlen ▸ hi)
  refine ⟨by rw [List.length_append, List.length_singleton, hlen], fun i hi ht => ?_,
    (fun y hy => by cases hy), fun j i hj => ?_, h.index_inj, fun r hr => ?_, h.received_nodup,
    h.not_received, h.complete, h.intact⟩
  · rcases Nat.lt_succ_iff_lt_or_eq.mp ht with ht | rfl
    · exact (h.waiting i hi ht).trans (hold i ht).symm
    · rw [h.publishing x hp, ← hlen, List.getElem?_concat_length]
  · have hi := h.indexed j i hj
    exact ⟨hi.1, hi.2.trans (hold i (by omega)).symm⟩
  · have hr' := h.received r hr
    exact ⟨hr'.1, (hold r.1 (by omega)).trans hr'.2⟩

theorem advance (h : Storage s)
    (hle : s.headIndex + total Consumer.commits s.consumer ≤ s.tailIndex)
    (ha : Advance width s c t) : Storage t := by
  cases ha with
  | goto hfrom hto =>
    apply h.goto
    · intro i hi
      rw [hi] at hfrom
      exact hfrom
    · rintro i rfl
      exact hto
  | @claim o hc =>
    have hg := h.goto (c := c) (k := .claimed o s.dequeueOptimisticCount) (by simp [hc]) (by simp)
    exact ⟨hg.length, hg.waiting, hg.publishing, hg.indexed, hg.index_inj, hg.received,
      hg.received_nodup, hg.not_received, hg.complete, hg.intact⟩
  | commit hc hgood => exact h.goto (by simp [hc]) (by simp)
  | overcommit hc => exact h.goto (by simp [hc]) (by simp)
  | index hc =>
    have hone := le_total Consumer.commits s.consumer c
    rw [hc, Consumer.commits] at hone
    exact h.index hc (by omega)
  | giveUp hc =>
    have hg := h.goto (c := c) (k := .returned none) (by simp [hc]) (by simp)
    exact ⟨hg.length, hg.waiting, hg.publishing, hg.indexed, hg.index_inj, hg.received,
      hg.received_nodup, hg.not_received, hg.complete, hg.intact⟩
  | receive hc hx => exact h.receive (by omega) hc hx
  | @fault i hc hnone =>
    have hi := h.indexed c i hc
    have hlen := h.length
    have hsome : s.enqueued[i]? ≠ none := by
      rw [Ne, List.getElem?_eq_none_iff]
      omega
    exact absurd (hi.2.symm.trans hnone) hsome

theorem step (h : Storage s) (hle : s.headIndex + total Consumer.commits s.consumer ≤ s.tailIndex)
    {e : Event κ δ} (he : ProducerQueue.step width s e = some t) : Storage t := by
  cases step_cases he with
  | enqueue =>
    refine ⟨h.length, h.waiting, fun y hy => ?_, h.indexed, h.index_inj, h.received,
      h.received_nodup, h.not_received, h.complete, h.intact⟩
    dsimp only at hy
    split at hy
    · cases hy
    · cases hy
  | construct => exact h.construct _ (by omega)
  | publish hp => exact h.publish hp (by omega)
  | leaveEnqueue =>
    exact ⟨h.length, h.waiting, (fun y hy => by cases hy), h.indexed, h.index_inj, h.received,
      h.received_nodup, h.not_received, h.complete, h.intact⟩
  | tryDequeue hc => exact h.goto (by simp [hc]) (by simp)
  | advance ha => exact h.advance hle ha
  | leave hc => exact h.goto (by simp [hc]) (by simp)

end Storage

omit [Fintype κ] in
/-- There is room for the elements up to the end of the last block begun. -/
structure Room (width : ℕ) (s : State κ δ) : Prop where
  block : (s.tailIndex + (blockSize - 1)) / blockSize * blockSize < s.headIndex + 2 ^ (width - 1)
  begun : ∀ x, s.producer = .constructing x ∨ s.producer = .publishing x →
    (s.tailIndex + blockSize) / blockSize * blockSize < s.headIndex + 2 ^ (width - 1)

namespace Room
variable {s t : State κ δ}

omit [Fintype κ] in
theorem mono (h : Room width s) (htail : t.tailIndex = s.tailIndex)
    (hhead : s.headIndex ≤ t.headIndex)
    (hproducer : ∀ x, t.producer = .constructing x ∨ t.producer = .publishing x →
      s.producer = .constructing x ∨ s.producer = .publishing x) : Room width t where
  block := by
    rw [htail]
    exact h.block.trans_le (Nat.add_le_add_right hhead _)
  begun x hx := by
    rw [htail]
    exact (h.begun x (hproducer x hx)).trans_le (Nat.add_le_add_right hhead _)

omit [Fintype κ] in
theorem enqueue (hwidth : 6 ≤ width) (h : Room width s) {allocated : Bool}
    (hok : s.refused width allocated = false) :
    (s.tailIndex + blockSize) / blockSize * blockSize < s.headIndex + 2 ^ (width - 1) := by
  have hblock : (s.tailIndex + 31) / 32 * 32 < s.headIndex + 2 ^ (width - 1) := h.block
  change (s.tailIndex + 32) / 32 * 32 < _
  have hhalf : 2 ^ 5 ≤ 2 ^ (width - 1) := Nat.pow_le_pow_right (by omega) (by omega)
  by_cases hend : s.tailIndex % 32 = 0
  · have htest : circularLessThan width s.headIndex (s.tailIndex + (32 : ℕ)) = true := by
      have hend' : s.tailIndex % blockSize = 0 := hend
      rw [State.refused, decide_eq_true hend', Bool.true_and, Bool.or_eq_false_iff] at hok
      exact (Bool.not_eq_false' _).mp hok.1
    have hcast : (2 : ℤ) ^ (width - 1) = ((2 ^ (width - 1) : ℕ) : ℤ) := by push_cast; rfl
    by_contra hfull
    have hroom := lt_half_of_circularLessThan (by omega) (by omega)
      (by rw [two_pow_eq (by omega), hcast]; omega) htest
    rw [hcast] at hroom
    omega
  · omega

omit [Fintype κ] in
theorem start : Room width (State.start : State κ δ) where
  block := by
    rw [State.start, blockSize, Nat.zero_add]
    exact Nat.lt_add_left 0 (Nat.two_pow_pos _)
  begun x hx := by rcases hx with hx | hx <;> cases hx

variable [DecidableEq κ]

omit [Fintype κ] in
theorem step (hwidth : 6 ≤ width) (h : Room width s) {e : Event κ δ}
    (he : ProducerQueue.step width s e = some t) : Room width t := by
  cases step_cases he with
  | @enqueue x allocated =>
    refine ⟨h.block, fun y hy => ?_⟩
    cases hok : s.refused width allocated with
    | false =>
      have hroom := h.enqueue hwidth hok
      exact hroom
    | true => rcases hy with hy | hy <;> simp [hok] at hy
  | construct hp =>
    exact h.mono rfl le_rfl fun y hy => by
      rcases hy with hy | hy <;> cases hy
      exact .inl hp
  | publish hp =>
    refine ⟨?_, fun y hy => by rcases hy with hy | hy <;> cases hy⟩
    rw [show s.tailIndex + 1 + (blockSize - 1) = s.tailIndex + blockSize from rfl]
    exact h.begun _ (.inr hp)
  | leaveEnqueue => exact h.mono rfl le_rfl fun y hy => by rcases hy with hy | hy <;> cases hy
  | advance ha =>
    cases ha with
    | index => exact h.mono rfl (Nat.le_succ _) fun _ hy => hy
    | _ => exact h.mono rfl le_rfl fun _ hy => hy
  | _ => exact h.mono rfl le_rfl fun _ hy => hy

end Room

section Runs
variable [DecidableEq κ] {es : List (Event κ δ)} {s : State κ δ}

theorem tickets_of_run (hwidth : 0 < width) (hrun : run (step width) .start es = some s)
    (htimely : Along (step width) .start es (Timely width)) : Tickets width s ∧ Storage s := by
  refine run_invariant_along (fun s => Tickets width s ∧ Storage s) (Timely width) ?_
    ⟨tickets_start, storage_start⟩ htimely hrun
  rintro s e t ⟨htickets, hstorage⟩ he ht
  exact ⟨htickets.step hwidth he ht, hstorage.step htickets.commits_le he⟩

omit [Fintype κ] in
theorem overcommit_le_succ {t : State κ δ} {e : Event κ δ} (he : step width s e = some t) :
    t.dequeueOvercommit ≤ s.dequeueOvercommit + 1 := by
  cases step_cases he with
  | advance ha => cases ha <;> simp [State.goto]
  | _ => exact Nat.le_succ _

omit [Fintype κ] in
theorem room_of_run (hwidth : 6 ≤ width) (hrun : run (step width) .start es = some s) :
    Room width s :=
  run_invariant (Room width) (fun _ _ _ h he => h.step hwidth he) .start hrun

theorem map_getElem?_range (xs : List δ) {n : ℕ} (hn : n ≤ xs.length) :
    (List.range n).map (xs[·]?) = (xs.take n).map some := by
  apply List.ext_getElem?
  intro i
  simp only [List.getElem?_map, List.getElem?_take]
  by_cases hi : i < n
  · rw [List.getElem?_range hi, if_pos hi, Option.map_some,
      List.getElem?_eq_getElem (by omega), Option.map_some]
  · rw [if_neg hi, List.getElem?_eq_none (by rw [List.length_range]; omega)]
    rfl

namespace Storage

omit [Fintype κ] [DecidableEq κ] in
theorem received_items (h : Storage s) :
    (s.received.map Prod.snd).map some = (s.received.map Prod.fst).map (s.enqueued[·]?) := by
  rw [List.map_map, List.map_map]
  exact List.map_congr_left fun r hr => (h.received r hr).2.symm

omit [Fintype κ] [DecidableEq κ] in
theorem received_perm (h : Storage s) (hle : s.headIndex ≤ s.tailIndex)
    (hidle : ∀ c i, s.consumer c ≠ .indexed i) :
    (s.received.map Prod.snd).Perm (s.enqueued.take s.headIndex) := by
  have hindices : (s.received.map Prod.fst).Perm (List.range s.headIndex) := by
    rw [List.perm_ext_iff_of_nodup h.received_nodup List.nodup_range]
    intro i
    rw [List.mem_range]
    constructor
    · intro hi
      obtain ⟨r, hr, rfl⟩ := List.mem_map.mp hi
      exact (h.received r hr).1
    · intro hi
      rcases h.complete i hi with ⟨c, hc⟩ | hrec
      · exact absurd hc (hidle c i)
      · exact hrec
  rw [← List.map_perm_map_iff (Option.some_injective δ), h.received_items,
    ← map_getElem?_range _ (h.length ▸ hle)]
  exact hindices.map _

omit [Fintype κ] [DecidableEq κ] in
theorem received_take (h : Storage s) {n : ℕ} (hn : n ≤ s.tailIndex)
    (horder : s.received.map Prod.fst = List.range n) :
    s.received.map Prod.snd = s.enqueued.take n := by
  rw [← (List.map_injective_iff.mpr (Option.some_injective δ)).eq_iff, h.received_items, horder,
    map_getElem?_range _ (h.length ▸ hn)]

end Storage

omit [Fintype κ] [DecidableEq κ] in
theorem Room.tailIndex_lt (h : Room width s) : s.tailIndex < s.headIndex + 2 ^ (width - 1) := by
  have hroom := h.block
  rw [blockSize] at hroom
  omega

end Runs

end ProducerQueue
end PyCtp
