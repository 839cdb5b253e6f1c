import PyCtp.BlockQueueInvariant

/-!
# The handover of blocks

The pool gives a block to the producer, who enters it in the index; the consumer that counts the
last element of a block takes it out of the index and gives it back.
-/
namespace PyCtp
open LabelledRuns Tallies

namespace BlockQueue
open ProducerQueue (blockSize circularLessThan)
open BlockIndex (Indexed)

section Producer
variable {κ δ : Type*} [Fintype κ] {width : ℕ} {first cls : ℕ → ℕ} {b : ℕ} {s t : State κ δ}

namespace Inv

theorem requisition (hs : Inv width first cls b s) {x : δ} {e nb : ℕ}
    (hi : s.insertion = .inserted x e) (hfree : s.owned nb = false) :
    Inv width first cls b { s with
      owned := Function.update s.owned nb true
      block := Function.update s.block nb
        { s.block nb with elementsCompletelyDequeued := 0 }
      insertion := .placing x e nb } := by
  generalize ht : ({ s with
    owned := Function.update s.owned nb true
    block := Function.update s.block nb { s.block nb with elementsCompletelyDequeued := 0 }
    insertion := .placing x e nb } : State κ δ) = t
  have hindex : t.index = s.index := by rw [← ht]
  have hqueue : t.queue = s.queue := by rw [← ht]
  have hreader : t.reader = s.reader := by rw [← ht]
  have hinsertion : t.insertion = .placing x e nb := by rw [← ht]
  have hplaced : placed t = placed s := by rw [placed, hqueue, placed]
  have hholding : ∀ c, holding t c = holding s c := fun c =>
    holding_congr (congrFun hreader c) fun i => by rw [hqueue]
  have hlive : ∀ n, Live t n ↔ Live s n := fun n => live_congr hplaced (by rw [hqueue]) hholding
  have hother : ∀ {o nb'}, Owns first b s o nb' → nb' ≠ nb := by
    rintro o nb' ho rfl
    exact absurd (hs.owned o nb' ho) (by simp [hfree])
  have hblock : ∀ nb', nb' ≠ nb → t.block nb' = s.block nb' := by
    intro nb' hne
    rw [← ht]
    exact Function.update_of_ne hne _ _
  have hiff : ∀ o nb', Owns first b t o nb' ↔
      o = .producer ∧ nb' = nb ∨ o ≠ .producer ∧ Owns first b s o nb' := by
    intro o nb'
    cases o with
    | block n => simp [Owns, hlive, hindex]
    | producer => simp [Owns, hinsertion, eq_comm]
    | consumer c => simp [Owns, hreader]
  have hblocks : ∀ {n nb'}, Owns first b t (.block n) nb' → Owns first b s (.block n) nb' :=
    fun ho => (((hiff _ _).mp ho).resolve_left (by simp)).2
  have h := hs.inserting
  rw [Inserting, hi] at h
  refine ⟨?_, ?_, .inr ?_, ?_, ?_, ?_, ?_, ?_, ?_, ?_, ?_, ?_, ?_⟩
  · have hbegun : begun t = begun s := by rw [begun, hplaced, hinsertion, begun, hi]; rfl
    rw [hindex, hplaced, hbegun]
    exact hs.index
  · rw [Inserting, hinsertion, hindex, hplaced]
    refine ⟨h.1, h.2, ?_⟩
    rw [← ht]
    simp
  · rw [hqueue]
    exact hs.room.resolve_left (by simp [hi])
  · intro n hn
    rw [hindex]
    exact hs.live n ((hlive n).mp hn)
  · intro n nb' ho
    have ho := hblocks ho
    rw [hblock nb' (hother ho), hqueue, funext hholding]
    exact hs.count n nb' ho
  · intro n nb' ho i hn hlt hslot
    have ho := hblocks ho
    rw [written, hqueue] at hlt
    rw [hqueue] at hslot ⊢
    rw [hblock nb' (hother ho)]
    exact hs.elements n nb' ho i hn hlt hslot
  · rw [hqueue, hplaced, hindex, ← ht]
    exact hs.tail
  · intro o nb' ho
    rw [← ht]
    rcases (hiff o nb').mp ho with ⟨-, rfl⟩ | ⟨-, ho⟩
    · exact Function.update_self ..
    · exact (Function.update_of_ne (hother ho) _ _).trans (hs.owned o nb' ho)
  · intro o o' nb' ho ho'
    rcases (hiff o nb').mp ho with ⟨rfl, rfl⟩ | ⟨-, ho⟩
    · rcases (hiff o' nb').mp ho' with ⟨rfl, -⟩ | ⟨-, ho'⟩
      · rfl
      · exact absurd rfl (hother ho')
    · rcases (hiff o' nb').mp ho' with ⟨-, rfl⟩ | ⟨-, ho'⟩
      · exact absurd rfl (hother ho)
      · exact hs.unique o o' nb' ho ho'
  · intro nb' hnb
    by_cases heq : nb' = nb
    · exact ⟨.producer, (hiff _ _).mpr (.inl ⟨rfl, heq⟩)⟩
    · rw [← ht] at hnb
      obtain ⟨o, ho⟩ := hs.kept nb' ((Function.update_of_ne heq _ _).symm.trans hnb)
      refine ⟨o, (hiff o nb').mpr (.inr ⟨?_, ho⟩)⟩
      rintro rfl
      obtain ⟨y, e', hy⟩ := ho
      rw [hi] at hy
      cases hy
  · intro c i hc
    exact (hlive _).mpr (hs.held c i (hholding c ▸ hc))
  · intro c
    exact hs.reading_moves (.of_eq hindex) (congrFun hreader c) hplaced.ge
      (fun _ => by rw [hqueue]) (fun n _ hn hlive' => hn ((hlive n).mp hlive'))
  · rw [← ht]
    exact hs.intact

theorem place (hs : Inv width first cls b s) (hle : s.queue.headIndex ≤ s.queue.tailIndex) {x : δ}
    {e nb : ℕ} (hi : s.insertion = .placing x e nb) :
    Inv width first cls b { s with
      index := s.index.storeValue e (some nb)
      tailBlock := some nb
      insertion := .idle
      queue := { s.queue with producer := .constructing x } } := by
  obtain ⟨hplaced, htail⟩ := hs.tailIndex_eq (by simp [hi])
  obtain ⟨hp, -⟩ := hs.room.resolve_left (by simp [hi])
  have h := hs.inserting
  rw [Inserting, hi] at h
  obtain ⟨rfl, hkey, hcounter⟩ := h
  have hbegun : begun s = placed s + 1 := by rw [begun, hi]; rfl
  have hindexed := (hbegun ▸ hs.index).place.storeValue (s.index.slot first b (placed s)) (some nb)
  have hnot : ¬Live s (placed s) := fun h => lt_irrefl _ h.1
  have hbefore : ∀ n < placed s, s.index.slot first b n ≠ s.index.slot first b (placed s) ∨
      (s.index.entry (s.index.slot first b n)).key ≠ some (blockSize * n) := by
    intro n hn
    by_contra hboth
    obtain ⟨heq, hn'⟩ := not_or.mp hboth
    rw [not_not] at heq hn'
    rw [heq, hkey] at hn'
    have := Nat.eq_of_mul_eq_mul_left (by decide) (Option.some.inj hn')
    omega
  generalize ht : ({ s with
    index := s.index.storeValue (s.index.slot first b (placed s)) (some nb)
    tailBlock := some nb
    insertion := .idle
    queue := { s.queue with producer := .constructing x } } : State κ δ) = t
  have hindex : t.index = s.index.storeValue (s.index.slot first b (placed s)) (some nb) := by
    rw [← ht]
  have hreader : t.reader = s.reader := by rw [← ht]
  have hhead : t.queue.headIndex = s.queue.headIndex := by rw [← ht]
  have hinsertion : t.insertion = .idle := by rw [← ht]
  have hblock : t.block = s.block := by rw [← ht]
  have hmore : placed t = placed s + 1 := by rw [← ht, hplaced, placed]
  have hholding : ∀ c, holding t c = holding s c := fun c =>
    holding_congr (congrFun hreader c) fun i => by rw [← ht]
  have hlive : ∀ n, Live t n ↔ Live s n ∨ n = placed s := by
    intro n
    rw [Live, Live, hmore, hhead]
    simp only [hholding]
    constructor
    · rintro ⟨hn, hor⟩
      rcases Nat.lt_succ_iff_lt_or_eq.mp hn with hlt | rfl
      · exact .inl ⟨hlt, hor⟩
      · exact .inr rfl
    · rintro (⟨hn, hor⟩ | rfl)
      · exact ⟨hn.trans (Nat.lt_succ_self _), hor⟩
      · refine ⟨Nat.lt_succ_self _, .inl ?_⟩
        change s.queue.tailIndex = 32 * placed s at htail
        change s.queue.headIndex < 32 * (placed s + 1)
        omega
  have hself : (t.index.entry (t.index.slot first b (placed s))).value = some nb := by
    rw [hindex]
    simp [BlockIndex.State.storeValue, BlockIndex.State.slot]
  have hother : ∀ n, Live s n → t.index.entry (t.index.slot first b n) =
      s.index.entry (s.index.slot first b n) := by
    intro n hn
    have hne := (hbefore n hn.1).resolve_right fun h => h (hs.live n hn).1
    rw [hindex]
    exact Function.update_of_ne hne _ _
  have hiff : ∀ o nb', Owns first b t o nb' ↔
      o = .block (placed s) ∧ nb' = nb ∨ o ≠ .producer ∧ Owns first b s o nb' := by
    intro o nb'
    cases o with
    | block n =>
      rw [Owns, hlive]
      by_cases hn : n = placed s
      · subst hn
        simp [hself, Owns, hnot, eq_comm]
      · simp only [hn, or_false, Owner.block.injEq, false_and, ne_eq, reduceCtorEq,
          not_false_eq_true, true_and, false_or]
        refine and_congr_right fun hn => ?_
        rw [hother n hn]
    | producer => simp [Owns, hinsertion]
    | consumer c => simp [Owns, hreader]
  have hproducer : Owns first b s .producer nb := ⟨x, _, hi⟩
  refine ⟨?_, ?_, .inl hinsertion, ?_, ?_, ?_, ?_, ?_, ?_, ?_, ?_, ?_, ?_⟩
  · have hbegun' : begun t = placed s + 1 := by rw [begun, hmore, hinsertion]; rfl
    rw [hindex, hmore, hbegun']
    exact hindexed
  · rw [Inserting, hinsertion]
    intro hnext
    have hlt := hindexed.slot_lt b le_rfl (placed t)
    rw [hindex, BlockIndex.key_storeValue, hmore] at hnext
    rw [BlockIndex.slot_storeValue, hmore] at hlt
    obtain ⟨m, hm, heq, -⟩ := hs.index.keys _ hlt _ hnext
    have := Nat.eq_of_mul_eq_mul_left (by decide) heq
    omega
  · intro n hn
    rcases (hlive n).mp hn with hn | rfl
    · rw [hother n hn]
      exact hs.live n hn
    · refine ⟨?_, by simp [hself]⟩
      rw [hindex, BlockIndex.key_storeValue]
      exact hkey
  · intro n nb' ho
    rw [hblock, hhead, funext hholding]
    rcases (hiff _ nb').mp ho with ⟨hn, rfl⟩ | ⟨-, ho⟩
    · obtain rfl := Owner.block.inj hn
      have hzero : total (inBlock (placed s)) (holding s) = 0 := by
        apply total_eq_zero
        intro c
        cases hc : holding s c with
        | none => rfl
        | some i =>
          have := (hs.held c i hc).1
          exact if_neg (by omega)
      change s.queue.tailIndex = 32 * placed s at htail
      rw [hcounter, hzero]
      change 0 = min 32 (s.queue.headIndex - 32 * placed s)
      omega
    · exact hs.count n nb' ho
  · intro n nb' ho i hn hlt hslot
    rw [← ht] at hlt hslot ⊢
    change i < s.queue.tailIndex at hlt
    rcases (hiff _ nb').mp ho with ⟨hn', rfl⟩ | ⟨-, ho⟩
    · obtain rfl := Owner.block.inj hn'
      change i / 32 = placed s at hn
      change s.queue.tailIndex = 32 * placed s at htail
      omega
    · refine hs.elements n nb' ho i hn ?_ hslot
      rw [written, hp]
      exact hlt
  · intro _
    have htailIndex : t.queue.tailIndex / blockSize = placed s := by rw [← ht, hplaced]
    rw [htailIndex, hself, ← ht]
  · intro o nb' ho
    have howned : t.owned = s.owned := by rw [← ht]
    rw [howned]
    rcases (hiff o nb').mp ho with ⟨-, rfl⟩ | ⟨-, ho⟩
    · exact hs.owned _ _ hproducer
    · exact hs.owned o nb' ho
  · intro o o' nb' ho ho'
    rcases (hiff o nb').mp ho with ⟨rfl, rfl⟩ | ⟨hne, ho⟩
    · rcases (hiff o' nb').mp ho' with ⟨rfl, -⟩ | ⟨hne', ho'⟩
      · rfl
      · exact absurd (hs.unique _ _ _ ho' hproducer) hne'
    · rcases (hiff o' nb').mp ho' with ⟨-, rfl⟩ | ⟨-, ho'⟩
      · exact absurd (hs.unique _ _ _ ho hproducer) hne
      · exact hs.unique o o' nb' ho ho'
  · intro nb' hnb
    rw [← ht] at hnb
    obtain ⟨o, ho⟩ := hs.kept nb' hnb
    by_cases hproducer' : o = .producer
    · subst hproducer'
      obtain ⟨y, e, hy⟩ := ho
      rw [hi] at hy
      exact ⟨_, (hiff _ _).mpr (.inl ⟨rfl, (Insertion.placing.inj hy).2.2.symm⟩)⟩
    · exact ⟨o, (hiff o nb').mpr (.inr ⟨hproducer', ho⟩)⟩
  · intro c i hc
    exact (hlive _).mpr (.inl (hs.held c i (hholding c ▸ hc)))
  · intro c
    refine hs.reading_moves (.of_keep hs hreader le_rfl ?_ ?_ ?_ ?_ ?_) (congrFun hreader c)
      (hmore ▸ Nat.le_succ _) (fun _ => by rw [← ht]) ?_
    · rw [hindex]
      exact le_rfl
    · intro e he n hn hkey' _
      have hne : e ≠ s.index.slot first b (placed s) := by
        rintro rfl
        rw [hkey] at hkey'
        have := Nat.eq_of_mul_eq_mul_left (by decide) (Option.some.inj hkey')
        omega
      rw [hindex]
      exact Function.update_of_ne hne _ _
    · intro e he hne
      rw [hindex, BlockIndex.key_storeValue]
      exact hne
    · intro h hh
      rw [hindex]
      exact ⟨rfl, rfl, rfl⟩
    · intro n hn
      rw [hindex]
      rfl
    · intro n hn hdead hn'
      rcases (hlive n).mp hn' with hn' | rfl
      · exact hdead hn'
      · exact lt_irrefl _ hn
  · rw [← ht]
    exact hs.intact

theorem tailBlock_owns (hs : Inv width first cls b s) (hle : s.queue.headIndex ≤ s.queue.tailIndex)
    {x : δ} (hp : s.queue.producer = .constructing x) : ∃ tb, s.tailBlock = some tb ∧
      Owns first b s (.block (s.queue.tailIndex / blockSize)) tb := by
  have hlt : s.queue.tailIndex / blockSize < placed s := by
    rw [placed, hp]
    exact Nat.lt_succ_self _
  have hlive : Live s (s.queue.tailIndex / blockSize) := by
    refine ⟨hlt, .inl ?_⟩
    change s.queue.headIndex < 32 * (s.queue.tailIndex / 32 + 1)
    omega
  obtain ⟨tb, htb⟩ := hs.block hlive
  exact ⟨tb, (hs.tail hlt).trans htb.2, htb⟩

theorem construct (hs : Inv width first cls b s) (hle : s.queue.headIndex ≤ s.queue.tailIndex)
    {x : δ} {tb : ℕ} (hp : s.queue.producer = .constructing x) (htb : s.tailBlock = some tb) :
    Inv width first cls b { s with
      block := Function.update s.block tb
        { s.block tb with
          elements := Function.update (s.block tb).elements
            (s.queue.tailIndex % blockSize) (some x) }
      queue := { s.queue with
        slots := Function.update s.queue.slots s.queue.tailIndex (some x)
        producer := .publishing x } } := by
  have hi := hs.insertion_eq_idle (by simp [hp])
  obtain ⟨tb', htb', howns⟩ := hs.tailBlock_owns hle hp
  obtain rfl := Option.some.inj (htb'.symm.trans htb)
  generalize ht : ({ s with
    block := Function.update s.block tb'
      { s.block tb' with
        elements := Function.update (s.block tb').elements
          (s.queue.tailIndex % blockSize) (some x) }
    queue := { s.queue with
      slots := Function.update s.queue.slots s.queue.tailIndex (some x)
      producer := .publishing x } } : State κ δ) = t
  have hindex : t.index = s.index := by rw [← ht]
  have hreader : t.reader = s.reader := by rw [← ht]
  have hinsertion : t.insertion = .idle := by rw [← ht, hi]
  have hhead : t.queue.headIndex = s.queue.headIndex := by rw [← ht]
  have htail : t.queue.tailIndex = s.queue.tailIndex := by rw [← ht]
  have hconsumer : t.queue.consumer = s.queue.consumer := by rw [← ht]
  have hplaced : placed t = placed s := by rw [← ht, placed, placed, hp]
  have hholding : ∀ c, holding t c = holding s c := fun c =>
    holding_congr (congrFun hreader c) fun i => by rw [hconsumer]
  have hlive : ∀ n, Live t n ↔ Live s n := fun n => live_congr hplaced hhead hholding
  refine hs.of_owners ⟨fun nb => ?_, by rw [← ht], by rw [← ht], by rw [← ht], hhead, hplaced,
    fun _ => by rw [htail], hholding, fun x e nb => by rw [hinsertion, hi],
    fun c nb => by rw [hreader]⟩ (.of_eq hindex) ?_ (fun _ => by rw [hindex])
    (hs.inserting_idle hi hplaced hindex (.inl hinsertion)) (.inl hinsertion) ?_ ?_
  · rw [← ht]
    by_cases hnb : nb = tb'
    · subst hnb
      simp
    · simp [hnb]
  · rw [hindex, hplaced, begun, hplaced, hinsertion, ← hi]
    exact hs.index
  · intro n nb ho i hn hlt hslot
    rw [← ht] at hlt hslot ⊢
    dsimp only at hslot ⊢
    by_cases hlast : i = s.queue.tailIndex
    · -- the element itself
      subst hlast
      subst hn
      obtain rfl := Option.some.inj (ho.2.symm.trans howns.2)
      simp
    · have hbefore : i < s.queue.tailIndex := lt_of_le_of_ne (Nat.lt_succ_iff.mp hlt) hlast
      rw [Function.update_of_ne hlast] at hslot ⊢
      have hold := hs.elements n nb ho i hn (by rw [written, hp]; exact hbefore) hslot
      by_cases hnb : nb = tb'
      · subst hnb
        have heq := Owner.block.inj (hs.unique _ _ _ ho howns)
        have hne : i % blockSize ≠ s.queue.tailIndex % blockSize := by
          intro hmod
          apply hlast
          rw [← Nat.div_add_mod i blockSize, hn, heq, hmod, Nat.div_add_mod]
        rw [Function.update_self]
        exact (Function.update_of_ne hne _ _).trans hold
      · rw [Function.update_of_ne hnb]
        exact hold
  · intro c
    exact hs.reading_moves (.of_eq hindex) (congrFun hreader c) hplaced.ge
      (fun _ => by rw [hconsumer]) (fun n _ hn hlive' => hn ((hlive n).mp hlive'))

end Inv

end Producer

section Consumer
variable {κ δ : Type*} [Fintype κ] {width : ℕ} {first cls : ℕ → ℕ} {b : ℕ} {s t : State κ δ}
  {c : κ} {i e nb : ℕ}

def Reader.Looking : Reader → Prop
  | .read .. | .last .. | .freeing .. => False
  | _ => True

omit [Fintype κ] in
theorem holding_of_looking (hlooking : (s.reader c).Looking)
    (hc : s.queue.consumer c = .indexed i) : holding s c = some i := by
  rw [holding]
  split
  · rename_i j e nb hr
    rw [hr] at hlooking
    exact hlooking.elim
  · rw [hc]

namespace Inv

theorem looking (hs : Inv width first cls b s) (hc : s.queue.consumer c = .indexed i) :
    (s.reader c).Looking := by
  have h := hs.reading c
  rw [Reading] at h
  cases hr : s.reader c with
  | read j e nb =>
    rw [hr] at h
    obtain ⟨⟨x, hx⟩, -⟩ := h
    rw [hc] at hx
    cases hx
  | last e nb =>
    rw [hr] at h
    obtain ⟨⟨x, hx⟩, -⟩ := h
    rw [hc] at hx
    cases hx
  | freeing nb =>
    rw [hr] at h
    obtain ⟨x, hx⟩ := h
    rw [hc] at hx
    cases hx
  | _ => trivial

theorem indexed_owns (hs : Inv width first cls b s) (hc : s.queue.consumer c = .indexed i) :
    ∃ nb, Owns first b s (.block (i / blockSize)) nb :=
  hs.block (hs.held c i (holding_of_looking (hs.looking hc) hc))

variable [DecidableEq κ]

theorem readerGoto (hs : Inv width first cls b s) {r : Reader}
    (hc : s.queue.consumer c = .indexed i) (hr : r.Looking)
    (hreading : Reading first b (s.readerGoto c r) c) :
    Inv width first cls b (s.readerGoto c r) := by
  have hself : (s.readerGoto c r).reader c = r := Function.update_self ..
  have hother : ∀ j, j ≠ c → (s.readerGoto c r).reader j = s.reader j :=
    fun j hj => Function.update_of_ne hj _ _
  have hholding : ∀ j, holding (s.readerGoto c r) j = holding s j := by
    intro j
    by_cases hj : j = c
    · subst hj
      rw [holding_of_looking (hs.looking hc) hc]
      exact holding_of_looking (hself.symm ▸ hr) hc
    · exact holding_congr (hother j hj) fun _ => Iff.rfl
  have hlive : ∀ n, Live (s.readerGoto c r) n ↔ Live s n := fun n => live_congr rfl rfl hholding
  have hending : ∀ r' : Reader, r'.Looking → ∀ nb,
      ¬((∃ e, r' = .last e nb) ∨ r' = .freeing nb) := by
    rintro r' hr' nb (⟨e, rfl⟩ | rfl)
    · exact hr'
    · exact hr'
  refine hs.of_owners ⟨fun _ => rfl, rfl, rfl, rfl, rfl, rfl, fun _ => rfl, hholding,
    fun _ _ _ => Iff.rfl, fun j nb => ?_⟩ (.of_eq rfl) hs.index (fun _ => rfl)
    (inserting_congr (s := s) rfl rfl rfl rfl hs.inserting) hs.room
    (fun n nb ho => hs.elements n nb ho) fun j => ?_
  · by_cases hj : j = c
    · subst hj
      rw [hself]
      exact iff_of_false (hending r hr nb) (hending _ (hs.looking hc) nb)
    · rw [hother j hj]
  · by_cases hj : j = c
    · subst hj
      exact hreading
    · exact hs.reading_moves (.of_eq rfl) (hother j hj) le_rfl (fun _ => rfl)
        (fun n _ hn hlive' => hn ((hlive n).mp hlive'))

theorem header (hs : Inv width first cls b s) {b' : ℕ} (hc : s.queue.consumer c = .indexed i)
    (hb : s.index.blockIndex = some b') :
    Inv width first cls b (s.readerGoto c (.headed i b')) := by
  obtain rfl := Option.some.inj (hs.index.current.symm.trans hb)
  obtain ⟨nb, howns⟩ := hs.indexed_owns hc
  refine hs.readerGoto hc trivial ?_
  rw [Reading, State.readerGoto]
  dsimp only
  rw [Function.update_self]
  exact ⟨hc, le_rfl, (hs.live _ howns.1).1⟩

theorem tailRead (hs : Inv width first cls b s) {h : ℕ} (hr : s.reader c = .headed i h) :
    Inv width first cls b (s.readerGoto c (.tailed i h (s.index.header h).tail)) := by
  have hreading := hs.reading c
  rw [Reading, hr] at hreading
  obtain ⟨hc, hh, hkey⟩ := hreading
  obtain ⟨nb, howns⟩ := hs.indexed_owns hc
  refine hs.readerGoto hc trivial ?_
  rw [Reading, State.readerGoto]
  dsimp only
  rw [Function.update_self]
  exact ⟨hc, hh, hkey, hs.index.tail_lt h hh,
    hs.index.tail_key h hh (.inr (Nat.zero_lt_of_lt howns.1.1))⟩

omit [DecidableEq κ] in
/-- The computed position is the one of the block, however long the tail was read before. -/
theorem lookup_entry (hs : Inv width first cls b s) {h tail k : ℕ}
    (hr : s.reader c = .tailed i h tail)
    (hk : (s.index.entry ((s.index.header h).index tail)).key = some k) :
    (s.index.header h).index (BlockIndex.lookup width (s.index.header h) i tail k) =
      s.index.slot first b (i / blockSize) := by
  have hreading := hs.reading c
  rw [Reading, hr] at hreading
  obtain ⟨-, hh, hkey, htail, -⟩ := hreading
  rw [hs.index.lookup_eq hh htail hk]
  exact hs.slot_eq hh hkey

theorem entryRead (hs : Inv width first cls b s) {h tail k : ℕ}
    (hr : s.reader c = .tailed i h tail)
    (hk : (s.index.entry ((s.index.header h).index tail)).key = some k)
    (he : e = (s.index.header h).index (BlockIndex.lookup width (s.index.header h) i tail k)) :
    Inv width first cls b (s.readerGoto c (.entried i e)) := by
  have hreading := hs.reading c
  rw [Reading, hr] at hreading
  refine hs.readerGoto hreading.1 trivial ?_
  rw [Reading, State.readerGoto]
  dsimp only
  rw [Function.update_self]
  exact ⟨hreading.1, he.trans (hs.lookup_entry hr hk)⟩

theorem blockRead (hs : Inv width first cls b s) (hr : s.reader c = .entried i e)
    (hv : (s.index.entry e).value = some nb) :
    Inv width first cls b (s.readerGoto c (.found i e nb)) := by
  have hreading := hs.reading c
  rw [Reading, hr] at hreading
  refine hs.readerGoto hreading.1 trivial ?_
  rw [Reading, State.readerGoto]
  dsimp only
  rw [Function.update_self]
  exact ⟨hreading.1, hreading.2, hv⟩

end Inv

omit [Fintype κ] in
theorem found_slot {q : ProducerQueue.State κ δ} (hstorage : ProducerQueue.Storage q)
    (hle : q.headIndex ≤ q.tailIndex) (hc : q.consumer c = .indexed i) :
    i < q.tailIndex ∧ q.slots i ≠ none := by
  obtain ⟨hlt, hslot⟩ := hstorage.indexed c i hc
  have htail : i < q.tailIndex := by omega
  refine ⟨htail, ?_⟩
  rw [hslot, List.getElem?_eq_getElem (hstorage.length ▸ htail)]
  exact Option.some_ne_none _

namespace Inv

theorem found_elements (hs : Inv width first cls b s) (hstorage : ProducerQueue.Storage s.queue)
    (hle : s.queue.headIndex ≤ s.queue.tailIndex) (hr : s.reader c = .found i e nb) :
    s.queue.consumer c = .indexed i ∧ Owns first b s (.block (i / blockSize)) nb ∧
      (s.block nb).elements (i % blockSize) = s.queue.slots i ∧ s.queue.slots i ≠ none := by
  have hreading := hs.reading c
  rw [Reading, hr] at hreading
  obtain ⟨hc, rfl, hv⟩ := hreading
  obtain ⟨nb', hlive, -⟩ := hs.indexed_owns hc
  obtain ⟨htail, hslot⟩ := found_slot hstorage hle hc
  have hwritten : i < written s := by
    rw [written]
    split
    · exact htail.trans (Nat.lt_succ_self _)
    · exact htail
  exact ⟨hc, ⟨hlive, hv⟩, hs.elements _ nb ⟨hlive, hv⟩ i rfl hwritten hslot, hslot⟩

variable [DecidableEq κ]

theorem move (hs : Inv width first cls b s) (hr : s.reader c = .found i e nb)
    (hc : s.queue.consumer c = .indexed i) (howns : Owns first b s (.block (i / blockSize)) nb)
    (x : δ) : Inv width first cls b (s.move c i e nb x) := by
  have hreading := hs.reading c
  rw [Reading, hr] at hreading
  generalize ht : s.move c i e nb x = t
  have hindex : t.index = s.index := by rw [← ht]; rfl
  have hself : t.reader c = .read i e nb := by
    rw [← ht]
    exact Function.update_self ..
  have hother : ∀ j, j ≠ c → t.reader j = s.reader j := by
    intro j hj
    rw [← ht]
    exact Function.update_of_ne hj _ _
  have hconsumer : ∀ j, j ≠ c → t.queue.consumer j = s.queue.consumer j := by
    intro j hj
    rw [← ht]
    exact Function.update_of_ne hj _ _
  have hreturned : t.queue.consumer c = .returned (some x) := by
    rw [← ht]
    exact Function.update_self ..
  have hplaced : placed t = placed s := by rw [← ht]; rfl
  have hhead : t.queue.headIndex = s.queue.headIndex := by rw [← ht]; rfl
  have hholding : ∀ j, holding t j = holding s j := by
    intro j
    by_cases hj : j = c
    · subst hj
      rw [holding_of_looking (hs.looking hc) hc, holding, hself]
    · exact holding_congr (hother j hj) fun i => by rw [hconsumer j hj]
  have hlive : ∀ n, Live t n ↔ Live s n := fun n => live_congr hplaced hhead hholding
  have hcounter : ∀ nb', (t.block nb').elementsCompletelyDequeued =
      (s.block nb').elementsCompletelyDequeued := by
    intro nb'
    rw [← ht, State.move]
    by_cases hnb : nb' = nb
    · subst hnb
      simp
    · simp [hnb]
  refine hs.of_owners ⟨hcounter, by rw [← ht]; rfl, by rw [← ht]; rfl, by rw [← ht]; rfl, hhead,
    hplaced, fun _ => by rw [← ht]; rfl, hholding, fun _ _ _ => by rw [← ht]; rfl,
    fun j nb' => ?_⟩ (.of_eq hindex) ?_ (fun _ => by rw [hindex]) ?_ (by rw [← ht]; exact hs.room)
    ?_ fun j => ?_
  · by_cases hj : j = c
    · subst hj
      simp [hself, hr]
    · rw [hother j hj]
  · have hbegun : begun t = begun s := by rw [← ht]; rfl
    rw [hindex, hplaced, hbegun]
    exact hs.index
  · have hinserting := hs.inserting
    have hinsertion : t.insertion = s.insertion := by rw [← ht]; rfl
    rw [Inserting] at hinserting ⊢
    simp only [hcounter]
    rwa [hinsertion, hindex, hplaced]
  · intro n nb' ho j hn hlt hslot
    rw [← ht, State.move] at hlt hslot ⊢
    dsimp only at hslot ⊢
    have hji : j ≠ i := by
      rintro rfl
      exact hslot (Function.update_self ..)
    rw [Function.update_of_ne hji] at hslot ⊢
    have hold := hs.elements n nb' ho j hn hlt hslot
    by_cases hnb : nb' = nb
    · subst hnb
      have heq := Owner.block.inj (hs.unique _ _ _ ho howns)
      have hne : j % blockSize ≠ i % blockSize := by
        intro hmod
        apply hji
        rw [← Nat.div_add_mod j blockSize, hn, heq, hmod, Nat.div_add_mod]
      rw [Function.update_self]
      exact (Function.update_of_ne hne _ _).trans hold
    · rw [Function.update_of_ne hnb]
      exact hold
  · by_cases hj : j = c
    · subst hj
      rw [Reading, hself, hindex]
      exact ⟨⟨x, hreturned⟩, hreading.2⟩
    · exact hs.reading_moves (.of_eq hindex) (hother j hj) hplaced.ge (fun _ => hconsumer j hj)
        (fun n _ hn hlive' => hn ((hlive n).mp hlive'))

omit [DecidableEq κ] in
/-- Of the elements of a block there are as many counted as taken and not held any more. -/
theorem read_count (hs : Inv width first cls b s) (hr : s.reader c = .read i e nb) :
    Owns first b s (.block (i / blockSize)) nb ∧
      (s.block nb).elementsCompletelyDequeued + total (inBlock (i / blockSize)) (holding s) =
        min blockSize (s.queue.headIndex - blockSize * (i / blockSize)) ∧
      0 < total (inBlock (i / blockSize)) (holding s) := by
  have hreading := hs.reading c
  rw [Reading, hr] at hreading
  obtain ⟨-, rfl, hv⟩ := hreading
  have hholds : holding s c = some i := by rw [holding, hr]
  have howns : Owns first b s (.block (i / blockSize)) nb := ⟨hs.held c i hholds, hv⟩
  refine ⟨howns, hs.count _ _ howns, ?_⟩
  have hone := le_total (inBlock (i / blockSize)) (holding s) c
  rw [hholds, inBlock, if_pos rfl] at hone
  omega

end Inv

section SetEmpty
variable [DecidableEq κ] (hs : Inv width first cls b s) (hr : s.reader c = .read i e nb)

omit [Fintype κ] in
theorem setEmpty_reader : (s.setEmpty c e nb).reader c =
    if (s.block nb).elementsCompletelyDequeued = blockSize - 1 then .last e nb else .idle :=
  Function.update_self ..

include hs hr in
theorem Inv.setEmpty_holding : holding (s.setEmpty c e nb) c = none ∧
    ∀ j, j ≠ c → holding (s.setEmpty c e nb) j = holding s j := by
  have hreading := hs.reading c
  rw [Reading, hr] at hreading
  obtain ⟨⟨x, hx⟩, -⟩ := hreading
  have hx : (s.setEmpty c e nb).queue.consumer c = .returned (some x) := hx
  refine ⟨?_, fun j hj => holding_congr (Function.update_of_ne hj _ _) fun _ => Iff.rfl⟩
  rw [holding, setEmpty_reader, hx]
  split
  · rename_i hread
    split at hread <;> cases hread
  · rfl

include hs hr in
theorem Inv.setEmpty_live {n : ℕ} : Live (s.setEmpty c e nb) n ↔ Live s n ∧
    ¬(n = i / blockSize ∧ (s.block nb).elementsCompletelyDequeued = blockSize - 1) := by
  obtain ⟨hnone, hholding⟩ := hs.setEmpty_holding hr
  obtain ⟨howns, hcount, hpos⟩ := hs.read_count hr
  have hholds : holding s c = some i := by rw [holding, hr]
  have hone := total_of_ne (inBlock (i / blockSize)) hholding
  rw [hnone, hholds, inBlock, inBlock, if_pos rfl] at hone
  change _ = min 32 (s.queue.headIndex - 32 * (i / blockSize)) at hcount
  change (n < placed s ∧ (s.queue.headIndex < 32 * (n + 1) ∨ _)) ↔
    (n < placed s ∧ (s.queue.headIndex < 32 * (n + 1) ∨ _)) ∧
      ¬(n = i / blockSize ∧ (s.block nb).elementsCompletelyDequeued = 31)
  obtain ⟨m, hblock⟩ : ∃ m, i / blockSize = m := ⟨_, rfl⟩
  rw [hblock] at hcount hpos hone ⊢
  constructor
  · rintro ⟨hn, hor⟩
    refine ⟨⟨hn, ?_⟩, ?_⟩
    · rcases hor with hlt | ⟨j, k, hk, hkn⟩
      · exact .inl hlt
      · have hj : j ≠ c := by
          rintro rfl
          rw [hnone] at hk
          cases hk
        exact .inr ⟨j, k, (hholding j hj).symm.trans hk, hkn⟩
    · rintro ⟨rfl, hlast⟩
      rcases hor with hlt | ⟨j, k, hk, hkn⟩
      · omega
      · have hheld := le_total (inBlock n) (holding (s.setEmpty c e nb)) j
        rw [hk, inBlock, if_pos hkn] at hheld
        omega
  · rintro ⟨⟨hn, hor⟩, hnot⟩
    refine ⟨hn, ?_⟩
    by_cases hni : n = m
    · subst hni
      have hmore : (s.block nb).elementsCompletelyDequeued ≠ 31 := fun h => hnot ⟨rfl, h⟩
      by_cases hlt : s.queue.headIndex < 32 * (n + 1)
      · exact .inl hlt
      · right
        by_contra hnobody
        have hzero : total (inBlock n) (holding (s.setEmpty c e nb)) = 0 := by
          apply total_eq_zero
          intro j
          cases hj : holding (s.setEmpty c e nb) j with
          | none => rfl
          | some k => exact if_neg fun hk => hnobody ⟨j, k, hj, hk⟩
        omega
    · rcases hor with hlt | ⟨j, k, hk, hkn⟩
      · exact .inl hlt
      · have hj : j ≠ c := by
          rintro rfl
          rw [hholds] at hk
          obtain rfl := Option.some.inj hk
          exact hni (hkn.symm.trans hblock)
        exact .inr ⟨j, k, (hholding j hj).trans hk, hkn⟩

include hs hr in
theorem Inv.setEmpty_owns {o : Owner κ} {nb' : ℕ} : Owns first b (s.setEmpty c e nb) o nb' ↔
    (o = .consumer c ∧ nb' = nb ∧ (s.block nb).elementsCompletelyDequeued = blockSize - 1) ∨
      Owns first b s o nb' ∧ ¬(o = .block (i / blockSize) ∧
        (s.block nb).elementsCompletelyDequeued = blockSize - 1) := by
  cases o with
  | block n =>
    rw [Owns, hs.setEmpty_live hr, Owns]
    simp only [reduceCtorEq, false_and, false_or, Owner.block.injEq]
    exact and_right_comm
  | producer => simp [Owns, State.setEmpty]
  | consumer j =>
    by_cases hj : j = c
    · subst hj
      rw [Owns, setEmpty_reader]
      by_cases hlast : (s.block nb).elementsCompletelyDequeued = blockSize - 1
      · simp [hlast, Owns, hr, eq_comm]
      · simp [hlast, Owns, hr]
    · have hother : (s.setEmpty c e nb).reader j = s.reader j := Function.update_of_ne hj _ _
      simp [Owns, hother, hj]

include hs hr in
theorem Inv.setEmpty : Inv width first cls b (s.setEmpty c e nb) := by
  obtain ⟨hnone, hholding⟩ := hs.setEmpty_holding hr
  obtain ⟨howns, hcount, hpos⟩ := hs.read_count hr
  have hholds : holding s c = some i := by rw [holding, hr]
  have hreading := hs.reading c
  rw [Reading, hr] at hreading
  obtain ⟨⟨x, hx⟩, hslot, hv⟩ := hreading
  have hother : ∀ j, j ≠ c → (s.setEmpty c e nb).reader j = s.reader j :=
    fun j hj => Function.update_of_ne hj _ _
  have hblocks : ∀ {n nb'}, Owns first b (s.setEmpty c e nb) (.block n) nb' →
      Owns first b s (.block n) nb' :=
    fun ho => (((hs.setEmpty_owns hr).mp ho).resolve_left (by simp)).1
  have hblock : ∀ nb', ((s.setEmpty c e nb).block nb').elements = (s.block nb').elements := by
    intro nb'
    rw [State.setEmpty]
    by_cases hnb : nb' = nb
    · subst hnb
      simp
    · simp [hnb]
  refine ⟨hs.index, ?_, hs.room, ?_, ?_, ?_, hs.tail, ?_, ?_, ?_, ?_, ?_, hs.intact⟩
  · -- the block of the producer is another one
    have hinserting := hs.inserting
    rw [Inserting] at hinserting ⊢
    cases hi : s.insertion with
    | placing y e' nb' =>
      have hsame : (s.setEmpty c e nb).insertion = .placing y e' nb' := hi
      rw [hi] at hinserting
      rw [hsame]
      refine ⟨hinserting.1, hinserting.2.1, ?_⟩
      have hne : nb' ≠ nb := by
        rintro rfl
        cases hs.unique _ .producer _ howns ⟨y, e', hi⟩
      have hkeep : (s.setEmpty c e nb).block nb' = s.block nb' := Function.update_of_ne hne _ _
      rw [hkeep]
      exact hinserting.2.2
    | _ =>
      rw [hi] at hinserting
      rw [show (s.setEmpty c e nb).insertion = s.insertion from rfl, hi]
      exact hinserting
  · exact fun n hn => hs.live n ((hs.setEmpty_live hr).mp hn).1
  · intro n nb' ho
    have hold := hs.count n nb' (hblocks ho)
    have htotal := total_of_ne (inBlock n) hholding
    rw [hnone, hholds] at htotal
    change _ = min 32 (s.queue.headIndex - 32 * n) at hold
    change _ = min 32 (s.queue.headIndex - 32 * n)
    change _ + (if i / blockSize = n then 1 else 0) = _ + 0 at htotal
    by_cases hn : i / blockSize = n
    · subst hn
      obtain rfl := Option.some.inj (howns.2.symm.trans ho.2)
      rw [if_pos rfl] at htotal
      have hself : ((s.setEmpty c e nb).block nb).elementsCompletelyDequeued =
          (s.block nb).elementsCompletelyDequeued + 1 := by simp [State.setEmpty]
      omega
    · rw [if_neg hn] at htotal
      have hne : nb' ≠ nb := by
        rintro rfl
        exact hn (Owner.block.inj (hs.unique _ _ _ howns (hblocks ho)))
      have hkeep : (s.setEmpty c e nb).block nb' = s.block nb' := Function.update_of_ne hne _ _
      rw [hkeep]
      omega
  · intro n nb' ho k hk hlt hslot
    rw [hblock]
    exact hs.elements n nb' (hblocks ho) k hk hlt hslot
  · intro o nb' ho
    rcases (hs.setEmpty_owns hr).mp ho with ⟨-, rfl, -⟩ | ⟨ho, -⟩
    · exact hs.owned _ _ howns
    · exact hs.owned o nb' ho
  · intro o o' nb' ho ho'
    rcases (hs.setEmpty_owns hr).mp ho with ⟨rfl, rfl, hlast⟩ | ⟨hown, hnot⟩
    · rcases (hs.setEmpty_owns hr).mp ho' with ⟨rfl, -⟩ | ⟨ho', hnot'⟩
      · rfl
      · exact absurd ⟨hs.unique _ _ _ ho' howns, hlast⟩ hnot'
    · rcases (hs.setEmpty_owns hr).mp ho' with ⟨-, rfl, hlast⟩ | ⟨ho', -⟩
      · exact absurd ⟨hs.unique _ _ _ hown howns, hlast⟩ hnot
      · exact hs.unique o o' nb' hown ho'
  · intro nb' hnb
    obtain ⟨o, ho⟩ := hs.kept nb' hnb
    by_cases hdone : o = .block (i / blockSize) ∧
        (s.block nb).elementsCompletelyDequeued = blockSize - 1
    · obtain ⟨rfl, hlast⟩ := hdone
      obtain rfl := Option.some.inj (ho.2.symm.trans howns.2)
      exact ⟨.consumer c, (hs.setEmpty_owns hr).mpr (.inl ⟨rfl, rfl, hlast⟩)⟩
    · exact ⟨o, (hs.setEmpty_owns hr).mpr (.inr ⟨ho, hdone⟩)⟩
  · intro j k hk
    have hj : j ≠ c := by
      rintro rfl
      rw [hnone] at hk
      cases hk
    exact ⟨(hs.held j k ((hholding j hj).symm.trans hk)).1, .inr ⟨j, k, hk, rfl⟩⟩
  · intro j
    by_cases hj : j = c
    · subst hj
      rw [Reading, setEmpty_reader]
      by_cases hlast : (s.block nb).elementsCompletelyDequeued = blockSize - 1
      · rw [if_pos hlast]
        refine ⟨⟨x, hx⟩, ?_, hv, i / blockSize, howns.1.1, ?_, fun hlive =>
          ((hs.setEmpty_live hr).mp hlive).2 ⟨rfl, hlast⟩⟩
        · rw [hslot]
          exact hs.index.slot_lt b le_rfl _
        · rw [hslot]
          exact (hs.live _ howns.1).1
      · rw [if_neg hlast]
        trivial
    · exact hs.reading_moves (.of_eq rfl) (hother j hj) le_rfl (fun _ => rfl)
        (fun n _ hn hlive' => hn ((hs.setEmpty_live hr).mp hlive').1)

end SetEmpty

namespace Inv
variable [DecidableEq κ]

theorem clear (hs : Inv width first cls b s) (hle : s.queue.headIndex ≤ s.queue.tailIndex)
    (hr : s.reader c = .last e nb) :
    Inv width first cls b
      { s.readerGoto c (.freeing nb) with index := s.index.storeValue e none } := by
  have hreading := hs.reading c
  rw [Reading, hr] at hreading
  obtain ⟨⟨x, hx⟩, he, hv, n, hn, hkey, hdead⟩ := hreading
  generalize ht : ({ s.readerGoto c (.freeing nb) with
    index := s.index.storeValue e none } : State κ δ) = t
  have hindex : t.index = s.index.storeValue e none := by rw [← ht]
  have hqueue : t.queue = s.queue := by
    rw [← ht]
    rfl
  have hself : t.reader c = .freeing nb := by
    rw [← ht]
    exact Function.update_self ..
  have hother : ∀ j, j ≠ c → t.reader j = s.reader j := by
    intro j hj
    rw [← ht]
    exact Function.update_of_ne hj _ _
  have hinsertion : t.insertion = s.insertion := by
    rw [← ht]
    rfl
  have hblock : t.block = s.block := by
    rw [← ht]
    rfl
  have hplaced : placed t = placed s := by rw [placed, hqueue, placed]
  have hholding : ∀ j, holding t j = holding s j := by
    intro j
    by_cases hj : j = c
    · subst hj
      rw [holding, hself, hqueue, holding, hr]
    · exact holding_congr (hother j hj) fun i => by rw [hqueue]
  have hlive : ∀ m, Live t m ↔ Live s m := fun m => live_congr hplaced (by rw [hqueue]) hholding
  have hne : ∀ m, Live s m → s.index.slot first b m ≠ e := by
    rintro m hm rfl
    have heq := (hs.live m hm).1.symm.trans hkey
    obtain rfl := Nat.eq_of_mul_eq_mul_left (by decide) (Option.some.inj heq)
    exact hdead hm
  have hentry : ∀ e', e' ≠ e → t.index.entry e' = s.index.entry e' := by
    intro e' he'
    rw [hindex]
    exact Function.update_of_ne he' _ _
  have hslot : ∀ h m, t.index.slot first h m = s.index.slot first h m := by
    intro h m
    rw [hindex]
    rfl
  have hmoves : Moves first first b b s t := by
    refine ⟨le_rfl, by rw [hindex]; exact le_rfl, fun m hm => hentry _ (hne m hm), ?_, ?_,
      fun h _ => by rw [hindex]; exact ⟨rfl, rfl, rfl⟩, fun m _ => hslot b m⟩
    · intro j e' nb' hj
      refine hentry e' ?_
      rintro rfl
      have hjc : j ≠ c := by
        rintro rfl
        rw [hself] at hj
        cases hj
      rw [hother j hjc] at hj
      have hreading := hs.reading j
      rw [Reading, hj] at hreading
      obtain rfl := Option.some.inj (hv.symm.trans hreading.2.2.1)
      exact hjc (Owner.consumer.inj
        (hs.unique (.consumer j) (.consumer c) nb (.inl ⟨_, hj⟩) (.inl ⟨_, hr⟩)))
    · intro e' _ hk
      rw [hindex, BlockIndex.key_storeValue]
      exact hk
  refine hs.of_owners ⟨fun nb' => by rw [hblock], by rw [← ht]; rfl, by rw [← ht]; rfl,
    by rw [← ht]; rfl, by rw [hqueue], hplaced, fun _ => by rw [hqueue], hholding,
    fun _ _ _ => by rw [hinsertion], fun j nb' => ?_⟩ hmoves ?_ ?_ ?_
    (by rw [hinsertion, hqueue]; exact hs.room) ?_ fun j => ?_
  · by_cases hj : j = c
    · subst hj
      simp [hself, hr]
    · rw [hother j hj]
  · rw [hindex, hplaced, begun, hplaced, hinsertion]
    exact hs.index.storeValue e none
  · intro hlt
    rw [hqueue] at hlt ⊢
    have htail : Live s (s.queue.tailIndex / blockSize) := by
      refine ⟨hlt, .inl ?_⟩
      change s.queue.headIndex < 32 * (s.queue.tailIndex / 32 + 1)
      omega
    rw [hslot, hentry _ (hne _ htail)]
  · have hinserting := hs.inserting
    have hvalue : ∀ e', (s.index.entry e').value = none → (t.index.entry e').value = none := by
      intro e' hnone
      by_cases he' : e' = e
      · rw [he', hindex]
        simp [BlockIndex.State.storeValue]
      · rw [hentry e' he']
        exact hnone
    rw [Inserting] at hinserting ⊢
    rw [hinsertion, hplaced, hslot, hblock]
    have hkeys : ∀ e', (t.index.entry e').key = (s.index.entry e').key := by
      intro e'
      rw [hindex, BlockIndex.key_storeValue]
    have hcapacity : (t.index.header b).capacity = (s.index.header b).capacity := by
      rw [hindex]
      rfl
    simp only [hkeys, hcapacity]
    cases hi : s.insertion with
    | idle =>
      rw [hi] at hinserting
      exact fun hnext => hvalue _ (hinserting hnext)
    | testing y =>
      rw [hi] at hinserting
      exact fun hnext => hvalue _ (hinserting hnext)
    | keying y e' =>
      rw [hi] at hinserting
      exact ⟨hinserting.1, hinserting.2.imp_right (hvalue _)⟩
    | _ =>
      rw [hi] at hinserting
      exact hinserting
  · intro m nb' ho k hk hlt hslot'
    rw [written, hqueue] at hlt
    rw [hqueue] at hslot' ⊢
    rw [hblock]
    exact hs.elements m nb' ho k hk hlt hslot'
  · by_cases hj : j = c
    · subst hj
      rw [Reading, hself, hqueue]
      exact ⟨x, hx⟩
    · exact hs.reading_moves hmoves (hother j hj) hplaced.ge (fun _ => by rw [hqueue])
        (fun m _ hm hlive' => hm ((hlive m).mp hlive'))

theorem free (hs : Inv width first cls b s) (hr : s.reader c = .freeing nb) :
    Inv width first cls b
      { s.readerGoto c .idle with owned := Function.update s.owned nb false } := by
  have hreading := hs.reading c
  rw [Reading, hr] at hreading
  obtain ⟨x, hx⟩ := hreading
  have howns : Owns first b s (.consumer c) nb := .inr hr
  generalize ht : ({ s.readerGoto c .idle with
    owned := Function.update s.owned nb false } : State κ δ) = t
  have hindex : t.index = s.index := by
    rw [← ht]
    rfl
  have hqueue : t.queue = s.queue := by
    rw [← ht]
    rfl
  have hblock : t.block = s.block := by
    rw [← ht]
    rfl
  have hinsertion : t.insertion = s.insertion := by
    rw [← ht]
    rfl
  have howned : t.owned = Function.update s.owned nb false := by rw [← ht]
  have hself : t.reader c = .idle := by
    rw [← ht]
    exact Function.update_self ..
  have hother : ∀ j, j ≠ c → t.reader j = s.reader j := by
    intro j hj
    rw [← ht]
    exact Function.update_of_ne hj _ _
  have hplaced : placed t = placed s := by rw [placed, hqueue, placed]
  have hholding : ∀ j, holding t j = holding s j := by
    intro j
    by_cases hj : j = c
    · subst hj
      rw [holding, hself, hqueue, holding, hr]
    · exact holding_congr (hother j hj) fun i => by rw [hqueue]
  have hlive : ∀ m, Live t m ↔ Live s m := fun m => live_congr hplaced (by rw [hqueue]) hholding
  have hiff : ∀ o nb', Owns first b t o nb' ↔ o ≠ .consumer c ∧ Owns first b s o nb' := by
    intro o nb'
    cases o with
    | block n => simp [Owns, hlive, hindex]
    | producer => simp [Owns, hinsertion]
    | consumer j =>
      by_cases hj : j = c
      · subst hj
        simp [Owns, hself]
      · simp [Owns, hother j hj, hj]
  have howns' := fun o nb' => fun ho => ((hiff o nb').mp ho).2
  refine ⟨?_, inserting_congr hinsertion hindex hblock hplaced hs.inserting, ?_, ?_, ?_, ?_, ?_,
    ?_, ?_, ?_, ?_, ?_, ?_⟩
  · rw [hindex, hplaced, begun, hplaced, hinsertion]
    exact hs.index
  · rw [hinsertion, hqueue]
    exact hs.room
  · intro m hm
    rw [hindex]
    exact hs.live m ((hlive m).mp hm)
  · intro m nb' ho
    rw [hblock, hqueue, funext hholding]
    exact hs.count m nb' (howns' _ nb' ho)
  · intro m nb' ho k hk hlt hslot
    rw [written, hqueue] at hlt
    rw [hqueue] at hslot ⊢
    rw [hblock]
    exact hs.elements m nb' (howns' _ nb' ho) k hk hlt hslot
  · rw [hqueue, hplaced, hindex, ← ht]
    exact hs.tail
  · intro o nb' ho
    obtain ⟨hne, ho⟩ := (hiff o nb').mp ho
    have hnb : nb' ≠ nb := by
      rintro rfl
      exact hne (hs.unique _ _ _ ho howns)
    rw [howned, Function.update_of_ne hnb]
    exact hs.owned o nb' ho
  · exact fun o o' nb' ho ho' => hs.unique o o' nb' (howns' o nb' ho) (howns' o' nb' ho')
  · intro nb' hnb
    rw [howned] at hnb
    have hne : nb' ≠ nb := by
      rintro rfl
      rw [Function.update_self] at hnb
      cases hnb
    rw [Function.update_of_ne hne] at hnb
    obtain ⟨o, ho⟩ := hs.kept nb' hnb
    refine ⟨o, (hiff o nb').mpr ⟨?_, ho⟩⟩
    rintro rfl
    rcases ho with ⟨e, hlast⟩ | hfreeing
    · rw [hr] at hlast
      cases hlast
    · rw [hr] at hfreeing
      exact hne (Reader.freeing.inj hfreeing).symm
  · intro j k hk
    exact (hlive _).mpr (hs.held j k (hholding j ▸ hk))
  · intro j
    by_cases hj : j = c
    · subst hj
      rw [Reading, hself]
      trivial
    · exact hs.reading_moves (.of_eq hindex) (hother j hj) hplaced.ge (fun _ => by rw [hqueue])
        (fun m _ hm hlive' => hm ((hlive m).mp hlive'))
  · rw [← ht]
    exact hs.intact

end Inv

end Consumer

end BlockQueue
end PyCtp
