import PyCtp.BlockQueue

/-!
# The invariant of the blocks of one producer

A block stays in the index and with its producer until the last of its elements is taken out. So a
consumer with an index finds the block of its element, whatever has happened to the index between
its reads, and the blocks of the queue hold what the slots of `ProducerQueue` hold.
-/
namespace PyCtp
open LabelledRuns Tallies

namespace BlockQueue
open ProducerQueue (blockSize circularLessThan)
open BlockIndex (Indexed)

section Definitions
variable {κ δ : Type*}

/-- The blocks that are in the index with their values: up to the last element that is published or
under way. -/
def placed (s : State κ δ) : ℕ :=
  match s.queue.producer with
  | .constructing _ | .publishing _ => s.queue.tailIndex / blockSize + 1
  | _ => (s.queue.tailIndex + (blockSize - 1)) / blockSize

def Insertion.begun : Insertion δ → ℕ
  | .inserted .. | .placing .. | .rewinding .. => 1
  | _ => 0

def begun (s : State κ δ) : ℕ := placed s + s.insertion.begun

def written (s : State κ δ) : ℕ :=
  match s.queue.producer with
  | .publishing _ => s.queue.tailIndex + 1
  | _ => s.queue.tailIndex

/-- The index of a consumer that has not counted its element as taken. -/
def holding (s : State κ δ) (c : κ) : Option ℕ :=
  match s.reader c with
  | .read i _ _ => some i
  | _ =>
    match s.queue.consumer c with
    | .indexed i => some i
    | _ => none

def inBlock (n : ℕ) : Option ℕ → ℕ
  | some i => if i / blockSize = n then 1 else 0
  | none => 0

/-- Some element of the block is not taken yet, or not counted. -/
def Live (s : State κ δ) (n : ℕ) : Prop :=
  n < placed s ∧ (s.queue.headIndex < blockSize * (n + 1) ∨
    ∃ c i, holding s c = some i ∧ i / blockSize = n)

/-- Who may have a block: the index under the number of the block, the producer, or the consumer
that counted its last element. -/
inductive Owner (κ : Type*)
  | block (n : ℕ)
  | producer
  | consumer (c : κ)

def Owns (first : ℕ → ℕ) (b : ℕ) (s : State κ δ) : Owner κ → ℕ → Prop
  | .block n, nb => Live s n ∧ (s.index.entry (s.index.slot first b n)).value = some nb
  | .producer, nb => ∃ x e, s.insertion = .placing x e nb
  | .consumer c, nb => (∃ e, s.reader c = .last e nb) ∨ s.reader c = .freeing nb

/-- What the producer relies on while it inserts a block. The entry after the tail is free where it
has the key of the next block already. -/
def Inserting (first : ℕ → ℕ) (b : ℕ) (s : State κ δ) : Prop :=
  let next := s.index.slot first b (placed s)
  match s.insertion with
  | .idle | .testing _ =>
    (s.index.entry next).key = some (blockSize * placed s) → (s.index.entry next).value = none
  | .keying _ e =>
    e = next ∧ ((s.index.entry next).key = none ∨ (s.index.entry next).value = none)
  | .growing _ => ∃ m, m + (s.index.header b).capacity = placed s ∧
      (s.index.entry next).key = some (blockSize * m)
  | .grown _ => (s.index.entry next).key = none
  | .keyed _ e | .inserted _ e | .rewinding _ e | .clearing _ e =>
    e = next ∧ (s.index.entry next).key = some (blockSize * placed s)
  | .placing _ e nb => e = next ∧ (s.index.entry next).key = some (blockSize * placed s) ∧
    (s.block nb).elementsCompletelyDequeued = 0

/-- What a consumer with an index has found out, and still holds. -/
def Reading (first : ℕ → ℕ) (b : ℕ) (s : State κ δ) (c : κ) : Prop :=
  match s.reader c with
  | .idle => True
  | .headed i h => s.queue.consumer c = .indexed i ∧ h ≤ b ∧
      (s.index.entry (s.index.slot first h (i / blockSize))).key =
        some (blockSize * (i / blockSize))
  | .tailed i h tail => s.queue.consumer c = .indexed i ∧ h ≤ b ∧
      (s.index.entry (s.index.slot first h (i / blockSize))).key =
        some (blockSize * (i / blockSize)) ∧
      tail < (s.index.header h).capacity ∧
      (s.index.entry ((s.index.header h).index tail)).key ≠ none
  | .entried i e => s.queue.consumer c = .indexed i ∧ e = s.index.slot first b (i / blockSize)
  | .found i e nb => s.queue.consumer c = .indexed i ∧
      e = s.index.slot first b (i / blockSize) ∧ (s.index.entry e).value = some nb
  | .read i e nb => (∃ x, s.queue.consumer c = .returned (some x)) ∧
      e = s.index.slot first b (i / blockSize) ∧ (s.index.entry e).value = some nb
  | .last e nb => (∃ x, s.queue.consumer c = .returned (some x)) ∧ e < s.index.entryCount ∧
      (s.index.entry e).value = some nb ∧
      ∃ n < placed s, (s.index.entry e).key = some (blockSize * n) ∧ ¬Live s n
  | .freeing _ => ∃ x, s.queue.consumer c = .returned (some x)

structure Inv [Fintype κ] (width : ℕ) (first cls : ℕ → ℕ) (b : ℕ) (s : State κ δ) : Prop where
  index : Indexed width first cls s.index b (placed s) (begun s)
  inserting : Inserting first b s
  room : s.insertion = .idle ∨ s.queue.producer = .idle ∧ s.queue.tailIndex % blockSize = 0 ∧
    s.queue.tailIndex + blockSize < s.queue.headIndex + 2 ^ (width - 1)
  live : ∀ n, Live s n →
    (s.index.entry (s.index.slot first b n)).key = some (blockSize * n) ∧
      (s.index.entry (s.index.slot first b n)).value ≠ none
  count : ∀ n nb, Owns first b s (.block n) nb →
    (s.block nb).elementsCompletelyDequeued + total (inBlock n) (holding s) =
      min blockSize (s.queue.headIndex - blockSize * n)
  elements : ∀ n nb, Owns first b s (.block n) nb → ∀ i, i / blockSize = n → i < written s →
    s.queue.slots i ≠ none → (s.block nb).elements (i % blockSize) = s.queue.slots i
  tail : s.queue.tailIndex / blockSize < placed s →
    s.tailBlock = (s.index.entry (s.index.slot first b (s.queue.tailIndex / blockSize))).value
  owned : ∀ o nb, Owns first b s o nb → s.owned nb = true
  unique : ∀ o o' nb, Owns first b s o nb → Owns first b s o' nb → o = o'
  kept : ∀ nb, s.owned nb = true → ∃ o, Owns first b s o nb
  held : ∀ c i, holding s c = some i → Live s (i / blockSize)
  reading : ∀ c, Reading first b s c
  intact : s.fault = false

end Definitions

section Numbers
variable {κ δ : Type*} {s t : State κ δ} {n i : ℕ}

theorem div_lt_placed (h : i < s.queue.tailIndex) : i / blockSize < placed s := by
  have hle : (s.queue.tailIndex + 31) / 32 ≤ placed s := by
    rw [placed]
    split
    · change _ ≤ s.queue.tailIndex / 32 + 1
      omega
    · change _ ≤ s.queue.tailIndex / 32 + 1
      omega
    · exact le_rfl
  change i / 32 < placed s
  omega

theorem placed_of_mod (hmod : s.queue.tailIndex % blockSize = 0)
    (hproducer : ∀ x, s.queue.producer ≠ .constructing x ∧ s.queue.producer ≠ .publishing x) :
    placed s = s.queue.tailIndex / blockSize := by
  have hmod : s.queue.tailIndex % 32 = 0 := hmod
  rw [placed]
  split
  · rename_i x hp
    exact absurd hp (hproducer x).1
  · rename_i x hp
    exact absurd hp (hproducer x).2
  · change (s.queue.tailIndex + 31) / 32 = s.queue.tailIndex / 32
    omega

theorem live_congr (hplaced : placed t = placed s) (hhead : t.queue.headIndex = s.queue.headIndex)
    (hholding : ∀ c, holding t c = holding s c) : Live t n ↔ Live s n := by
  simp only [Live, hplaced, hhead, hholding]

end Numbers

namespace Inv
variable {κ δ : Type*} [Fintype κ] {width : ℕ} {first cls : ℕ → ℕ} {b : ℕ} {s t : State κ δ}
  {n nb : ℕ} {c : κ}

theorem block (hs : Inv width first cls b s) (hlive : Live s n) :
    ∃ nb, Owns first b s (.block n) nb := by
  obtain ⟨nb, hnb⟩ := Option.ne_none_iff_exists'.mp (hs.live n hlive).2
  exact ⟨nb, hlive, hnb⟩

theorem slot_eq (hs : Inv width first cls b s) {h : ℕ} (hh : h ≤ b)
    (hkey : (s.index.entry (s.index.slot first h n)).key = some (blockSize * n)) :
    s.index.slot first h n = s.index.slot first b n :=
  hs.index.eq_slot (hs.index.slot_lt h hh n) hkey

theorem le_add_capacity (hs : Inv width first cls b s) (hlive : Live s n) :
    begun s ≤ n + (s.index.header b).capacity := by
  obtain ⟨m, -, heq, -, hle, -⟩ := hs.index.keys _ (hs.index.slot_lt b le_rfl n) _
    (hs.live n hlive).1
  obtain rfl := Nat.eq_of_mul_eq_mul_left (by decide) heq
  exact hle

end Inv

section Frame
variable {κ δ : Type*} [Fintype κ] {width : ℕ} {first cls : ℕ → ℕ} {b : ℕ} {s t : State κ δ}

structure SameOwners (s t : State κ δ) : Prop where
  counter : ∀ nb,
    (t.block nb).elementsCompletelyDequeued = (s.block nb).elementsCompletelyDequeued
  owned : t.owned = s.owned
  tailBlock : t.tailBlock = s.tailBlock
  fault : t.fault = s.fault
  headIndex : t.queue.headIndex = s.queue.headIndex
  placed : placed t = placed s
  tailIndex : t.queue.tailIndex / blockSize < BlockQueue.placed s →
    t.queue.tailIndex / blockSize = s.queue.tailIndex / blockSize
  holding : ∀ c, holding t c = holding s c
  placing : ∀ x e nb, t.insertion = .placing x e nb ↔ s.insertion = .placing x e nb
  ending : ∀ c nb, ((∃ e, t.reader c = .last e nb) ∨ t.reader c = .freeing nb) ↔
    (∃ e, s.reader c = .last e nb) ∨ s.reader c = .freeing nb

structure SameBlocks (s t : State κ δ) : Prop where
  block : t.block = s.block
  owned : t.owned = s.owned
  tailBlock : t.tailBlock = s.tailBlock
  reader : t.reader = s.reader
  fault : t.fault = s.fault
  headIndex : t.queue.headIndex = s.queue.headIndex
  slots : t.queue.slots = s.queue.slots
  placed : placed t = placed s
  written : written t = written s
  tailIndex : t.queue.tailIndex / blockSize < BlockQueue.placed s →
    t.queue.tailIndex / blockSize = s.queue.tailIndex / blockSize
  consumer : ∀ c, s.reader c ≠ .idle → t.queue.consumer c = s.queue.consumer c
  holding : ∀ c, holding t c = holding s c
  placing : ∀ x e nb, t.insertion = .placing x e nb ↔ s.insertion = .placing x e nb

variable {first' cls' : ℕ → ℕ} {b' : ℕ}

structure Moves (first first' : ℕ → ℕ) (b b' : ℕ) (s t : State κ δ) : Prop where
  le : b ≤ b'
  entryCount : s.index.entryCount ≤ t.index.entryCount
  entry : ∀ n, Live s n →
    t.index.entry (s.index.slot first b n) = s.index.entry (s.index.slot first b n)
  last : ∀ c e nb, t.reader c = .last e nb → t.index.entry e = s.index.entry e
  keyed : ∀ e < s.index.entryCount, (s.index.entry e).key ≠ none → (t.index.entry e).key ≠ none
  header : ∀ h ≤ b, (t.index.header h).capacity = (s.index.header h).capacity ∧
    (t.index.header h).index = (s.index.header h).index ∧ first' h = first h
  slot : ∀ n, Live s n → t.index.slot first' b' n = s.index.slot first b n

namespace Moves

omit [Fintype κ] in
theorem of_eq (h : t.index = s.index) : Moves first first b b s t where
  le := le_rfl
  entryCount := by rw [h]
  entry n _ := by rw [h]
  last c e nb _ := by rw [h]
  keyed e _ hk := by rwa [h]
  header hd _ := by rw [h]; exact ⟨rfl, rfl, rfl⟩
  slot n _ := by rw [h]

theorem of_keep (hs : Inv width first cls b s) (hreader : t.reader = s.reader) (hle : b ≤ b')
    (hcount : s.index.entryCount ≤ t.index.entryCount)
    (hkeep : ∀ e < s.index.entryCount, ∀ n < placed s,
      (s.index.entry e).key = some (blockSize * n) → (s.index.entry e).value ≠ none →
        t.index.entry e = s.index.entry e)
    (hkeyed : ∀ e < s.index.entryCount, (s.index.entry e).key ≠ none →
      (t.index.entry e).key ≠ none)
    (hheader : ∀ h ≤ b, (t.index.header h).capacity = (s.index.header h).capacity ∧
      (t.index.header h).index = (s.index.header h).index ∧ first' h = first h)
    (hslot : ∀ n, Live s n → t.index.slot first' b' n = s.index.slot first b n) :
    Moves first first' b b' s t where
  le := hle
  entryCount := hcount
  entry n hlive := hkeep _ (hs.index.slot_lt b le_rfl n) n hlive.1 (hs.live n hlive).1
    (hs.live n hlive).2
  last c e nb hr := by
    have h := hs.reading c
    rw [hreader] at hr
    rw [Reading, hr] at h
    obtain ⟨-, he, hv, n, hn, hkey, -⟩ := h
    exact hkeep e he n hn hkey (by simp [hv])
  keyed := hkeyed
  header := hheader
  slot := hslot

omit [Fintype κ] in
theorem slot_old (h : Moves first first' b b' s t) {hd : ℕ} (hle : hd ≤ b) (n : ℕ) :
    t.index.slot first' hd n = s.index.slot first hd n := by
  obtain ⟨hcap, hindex, hfirst⟩ := h.header hd hle
  rw [BlockIndex.State.slot, hcap, hindex, hfirst, BlockIndex.State.slot]

end Moves

theorem Inv.reading_moves (hs : Inv width first cls b s) {c : κ} (hm : Moves first first' b b' s t)
    (hreader : t.reader c = s.reader c) (hplaced : placed s ≤ placed t)
    (hconsumer : s.reader c ≠ .idle → t.queue.consumer c = s.queue.consumer c)
    (hdead : ∀ n < placed s, ¬Live s n → ¬Live t n) : Reading first' b' t c := by
  have h := hs.reading c
  rw [Reading] at h ⊢
  rw [hreader]
  have hindexed : ∀ i, s.queue.consumer c = .indexed i →
      (∀ j e nb, s.reader c ≠ .read j e nb) → Live s (i / blockSize) := by
    intro i hi hr
    apply hs.held c
    rw [holding]
    split
    · rename_i j e nb hread
      exact absurd hread (hr j e nb)
    · rw [hi]
  cases hr : s.reader c with
  | idle => trivial
  | headed i hd =>
    rw [hr] at h
    obtain ⟨hc, hle, hkey⟩ := h
    have hlive := hindexed i hc (by simp [hr])
    refine ⟨(hconsumer (by simp [hr])).trans hc, hle.trans hm.le, ?_⟩
    rw [hm.slot_old hle, hs.slot_eq hle hkey, hm.entry _ hlive]
    exact (hs.live _ hlive).1
  | tailed i hd tail =>
    rw [hr] at h
    obtain ⟨hc, hle, hkey, htail, hkeyed⟩ := h
    have hlive := hindexed i hc (by simp [hr])
    obtain ⟨hcap, hindex, -⟩ := hm.header hd hle
    refine ⟨(hconsumer (by simp [hr])).trans hc, hle.trans hm.le, ?_, by rwa [hcap], ?_⟩
    · rw [hm.slot_old hle, hs.slot_eq hle hkey, hm.entry _ hlive]
      exact (hs.live _ hlive).1
    · rw [hindex]
      have hlt := hs.index.slot_lt hd hle (tail + first hd)
      rw [BlockIndex.State.slot, CircularPositions.position_add_first htail] at hlt
      exact hm.keyed _ hlt hkeyed
  | entried i e =>
    rw [hr] at h
    obtain ⟨hc, rfl⟩ := h
    have hlive := hindexed i hc (by simp [hr])
    exact ⟨(hconsumer (by simp [hr])).trans hc, (hm.slot _ hlive).symm⟩
  | found i e nb =>
    rw [hr] at h
    obtain ⟨hc, rfl, hv⟩ := h
    have hlive := hindexed i hc (by simp [hr])
    refine ⟨(hconsumer (by simp [hr])).trans hc, (hm.slot _ hlive).symm, ?_⟩
    rw [hm.entry _ hlive]
    exact hv
  | read i e nb =>
    rw [hr] at h
    obtain ⟨⟨x, hx⟩, rfl, hv⟩ := h
    have hlive : Live s (i / blockSize) := hs.held c i (by rw [holding, hr])
    refine ⟨⟨x, (hconsumer (by simp [hr])).trans hx⟩, (hm.slot _ hlive).symm, ?_⟩
    rw [hm.entry _ hlive]
    exact hv
  | last e nb =>
    rw [hr] at h
    obtain ⟨⟨x, hx⟩, he, hv, n, hn, hkey, hnot⟩ := h
    have hsame := hm.last c e nb (hreader.trans hr)
    refine ⟨⟨x, (hconsumer (by simp [hr])).trans hx⟩, he.trans_le hm.entryCount, ?_, n,
      hn.trans_le hplaced, ?_, hdead n hn hnot⟩
    · rw [hsame]
      exact hv
    · rw [hsame]
      exact hkey
  | freeing nb =>
    rw [hr] at h
    obtain ⟨x, hx⟩ := h
    exact ⟨x, (hconsumer (by simp [hr])).trans hx⟩

/-- A step that may move the index and change the elements in the blocks. -/
theorem Inv.of_owners (hs : Inv width first cls b s) (h : SameOwners s t)
    (hm : Moves first first' b b' s t)
    (hindexed : Indexed width first' cls' t.index b' (placed t) (begun t))
    (hvalue : t.queue.tailIndex / blockSize < placed s →
      (t.index.entry (t.index.slot first' b' (t.queue.tailIndex / blockSize))).value =
        (s.index.entry (s.index.slot first b (t.queue.tailIndex / blockSize))).value)
    (hinserting : Inserting first' b' t)
    (hroom : t.insertion = .idle ∨ t.queue.producer = .idle ∧
      t.queue.tailIndex % blockSize = 0 ∧
        t.queue.tailIndex + blockSize < t.queue.headIndex + 2 ^ (width - 1))
    (helements : ∀ n nb, Owns first b s (.block n) nb → ∀ i, i / blockSize = n → i < written t →
      t.queue.slots i ≠ none → (t.block nb).elements (i % blockSize) = t.queue.slots i)
    (hreading : ∀ c, Reading first' b' t c) : Inv width first' cls' b' t := by
  have hlive : ∀ n, Live t n ↔ Live s n := fun n => live_congr h.placed h.headIndex h.holding
  have hentry : ∀ n, Live s n → t.index.entry (t.index.slot first' b' n) =
      s.index.entry (s.index.slot first b n) := by
    intro n hn
    rw [hm.slot n hn, hm.entry n hn]
  have hiff : ∀ o nb, Owns first' b' t o nb ↔ Owns first b s o nb := by
    intro o nb
    cases o with
    | block n =>
      refine ⟨fun ho => ?_, fun ho => ?_⟩
      · have hn := (hlive n).mp ho.1
        exact ⟨hn, hentry n hn ▸ ho.2⟩
      · exact ⟨(hlive n).mpr ho.1, (hentry n ho.1).symm ▸ ho.2⟩
    | producer => exact exists_congr fun x => exists_congr fun e => h.placing x e nb
    | consumer c => exact h.ending c nb
  have howns := fun o nb => (hiff o nb).mp
  refine ⟨hindexed, hinserting, hroom, ?_, ?_, ?_, ?_, ?_, ?_, ?_, ?_, hreading,
    h.fault.trans hs.intact⟩
  · intro n hn
    rw [hentry n ((hlive n).mp hn)]
    exact hs.live n ((hlive n).mp hn)
  · intro n nb ho
    rw [h.counter, h.headIndex, funext h.holding]
    exact hs.count n nb (howns _ nb ho)
  · exact fun n nb ho => helements n nb (howns _ nb ho)
  · intro hlt
    rw [h.placed] at hlt
    rw [h.tailBlock, hvalue hlt]
    have hsame := h.tailIndex hlt
    rw [hsame]
    exact hs.tail (hsame ▸ hlt)
  · intro o nb ho
    rw [h.owned]
    exact hs.owned o nb (howns o nb ho)
  · exact fun o o' nb ho ho' => hs.unique o o' nb (howns o nb ho) (howns o' nb ho')
  · intro nb hnb
    rw [h.owned] at hnb
    obtain ⟨o, ho⟩ := hs.kept nb hnb
    exact ⟨o, (hiff o nb).mpr ho⟩
  · intro c i hi
    exact (hlive _).mpr (hs.held c i (h.holding c ▸ hi))

omit [Fintype κ] in
theorem SameBlocks.owners (h : SameBlocks s t) : SameOwners s t where
  counter nb := by rw [h.block]
  owned := h.owned
  tailBlock := h.tailBlock
  fault := h.fault
  headIndex := h.headIndex
  placed := h.placed
  tailIndex := h.tailIndex
  holding := h.holding
  placing := h.placing
  ending c nb := by rw [h.reader]

theorem Inv.of_moves (hs : Inv width first cls b s) (h : SameBlocks s t)
    (hm : Moves first first' b b' s t)
    (hindexed : Indexed width first' cls' t.index b' (placed t) (begun t))
    (hvalue : t.queue.tailIndex / blockSize < placed s →
      (t.index.entry (t.index.slot first' b' (t.queue.tailIndex / blockSize))).value =
        (s.index.entry (s.index.slot first b (t.queue.tailIndex / blockSize))).value)
    (hinserting : Inserting first' b' t)
    (hroom : t.insertion = .idle ∨ t.queue.producer = .idle ∧
      t.queue.tailIndex % blockSize = 0 ∧
        t.queue.tailIndex + blockSize < t.queue.headIndex + 2 ^ (width - 1)) :
    Inv width first' cls' b' t := by
  have hlive : ∀ n, Live t n ↔ Live s n := fun n => live_congr h.placed h.headIndex h.holding
  refine hs.of_owners h.owners hm hindexed hvalue hinserting hroom ?_ ?_
  · intro n nb ho i hi hlt hslot
    rw [h.slots] at hslot ⊢
    rw [h.block]
    exact hs.elements n nb ho i hi (h.written ▸ hlt) hslot
  · intro c
    exact hs.reading_moves hm (congrFun h.reader c) h.placed.ge (h.consumer c)
      (fun n _ hn hlive' => hn ((hlive n).mp hlive'))

theorem Inv.of_same (hs : Inv width first cls b s) (h : SameBlocks s t)
    (hindex : t.index = s.index) (hbegun : t.insertion.begun = s.insertion.begun)
    (hinserting : Inserting first b t)
    (hroom : t.insertion = .idle ∨ t.queue.producer = .idle ∧
      t.queue.tailIndex % blockSize = 0 ∧
        t.queue.tailIndex + blockSize < t.queue.headIndex + 2 ^ (width - 1)) :
    Inv width first cls b t := by
  refine hs.of_moves h (.of_eq hindex) ?_ (fun _ => by rw [hindex]) hinserting hroom
  rw [hindex, begun, h.placed, hbegun]
  exact hs.index

omit [Fintype κ] in
theorem inserting_congr (hinsertion : t.insertion = s.insertion) (hindex : t.index = s.index)
    (hblock : t.block = s.block) (hplaced : placed t = placed s) (h : Inserting first b s) :
    Inserting first b t := by
  rw [Inserting] at h ⊢
  rwa [hinsertion, hindex, hblock, hplaced]

omit [Fintype κ] in
theorem holding_congr {c : κ} (hreader : t.reader c = s.reader c)
    (hindexed : ∀ i, t.queue.consumer c = .indexed i ↔ s.queue.consumer c = .indexed i) :
    holding t c = holding s c := by
  rw [holding, holding, hreader]
  split
  · rfl
  · split
    · rename_i i hi
      rw [(hindexed i).mp hi]
    · rename_i hne
      split
      · rename_i i hi
        exact absurd ((hindexed i).mpr hi) (hne i)
      · rfl

theorem Inv.reader_eq_idle (hs : Inv width first cls b s) {c : κ}
    (hindexed : ∀ i, s.queue.consumer c ≠ .indexed i)
    (hreturned : ∀ x, s.queue.consumer c ≠ .returned (some x)) : s.reader c = .idle := by
  have h := hs.reading c
  rw [Reading] at h
  cases hr : s.reader c with
  | idle => rfl
  | headed i hd =>
    rw [hr] at h
    exact absurd h.1 (hindexed i)
  | tailed i hd tail =>
    rw [hr] at h
    exact absurd h.1 (hindexed i)
  | entried i e =>
    rw [hr] at h
    exact absurd h.1 (hindexed i)
  | found i e nb =>
    rw [hr] at h
    exact absurd h.1 (hindexed i)
  | read i e nb =>
    rw [hr] at h
    obtain ⟨⟨x, hx⟩, -⟩ := h
    exact absurd hx (hreturned x)
  | last e nb =>
    rw [hr] at h
    obtain ⟨⟨x, hx⟩, -⟩ := h
    exact absurd hx (hreturned x)
  | freeing nb =>
    rw [hr] at h
    obtain ⟨x, hx⟩ := h
    exact absurd hx (hreturned x)

omit [Fintype κ] in
theorem same_of_consumer [DecidableEq κ] {c : κ} {q : ProducerQueue.State κ δ}
    {k : ProducerQueue.Consumer δ} (hr : s.reader c = .idle)
    (hc : ∀ i, s.queue.consumer c ≠ .indexed i) (hk : ∀ i, k ≠ .indexed i)
    (hconsumer : q.consumer = Function.update s.queue.consumer c k)
    (hproducer : q.producer = s.queue.producer) (htail : q.tailIndex = s.queue.tailIndex)
    (hhead : q.headIndex = s.queue.headIndex) (hslots : q.slots = s.queue.slots) :
    SameBlocks s { s with queue := q } := by
  have hplaced : placed { s with queue := q } = placed s := by
    simp only [placed, hproducer, htail]
  refine ⟨rfl, rfl, rfl, rfl, rfl, hhead, hslots, hplaced, ?_, fun _ => by rw [htail], ?_, ?_,
    fun _ _ _ => Iff.rfl⟩
  · simp only [written, hproducer, htail]
  · intro j hj
    have hne : j ≠ c := by
      rintro rfl
      exact hj hr
    rw [hconsumer, Function.update_of_ne hne]
  · intro j
    refine holding_congr (s := s) rfl fun i => ?_
    by_cases hj : j = c
    · subst hj
      simp only [hconsumer, Function.update_self]
      exact ⟨fun h => absurd h (hk i), fun h => absurd h (hc i)⟩
    · simp only [hconsumer, Function.update_of_ne hj]

theorem Inv.of_consumer (hs : Inv width first cls b s) {q : ProducerQueue.State κ δ}
    (h : SameBlocks s { s with queue := q }) (hproducer : q.producer = s.queue.producer)
    (htail : q.tailIndex = s.queue.tailIndex) : Inv width first cls b { s with queue := q } := by
  refine hs.of_same h rfl rfl (inserting_congr (s := s) rfl rfl rfl h.placed hs.inserting) ?_
  rw [hproducer, htail, h.headIndex]
  exact hs.room

end Frame

section Counters
variable {κ δ : Type*} [Fintype κ] [DecidableEq κ] {width : ℕ} {first cls : ℕ → ℕ} {b : ℕ}
  {s : State κ δ} {q : ProducerQueue.State κ δ} {c : κ}

namespace Inv

theorem tryDequeue (hs : Inv width first cls b s)
    (hq : ProducerQueue.step width s.queue (.tryDequeue c) = some q) :
    Inv width first cls b { s with queue := q } := by
  cases ProducerQueue.step_cases hq with
  | tryDequeue hc =>
    exact hs.of_consumer (same_of_consumer (hs.reader_eq_idle (by simp [hc]) (by simp [hc]))
      (by simp [hc]) (by simp) rfl rfl rfl rfl rfl) rfl rfl

theorem leave (hs : Inv width first cls b s) (hr : s.reader c = .idle)
    (hq : ProducerQueue.step width s.queue (.leave c) = some q) :
    Inv width first cls b { s with queue := q } := by
  cases ProducerQueue.step_cases hq with
  | leave hc =>
    exact hs.of_consumer (same_of_consumer hr (by simp [hc]) (by simp) rfl rfl rfl rfl rfl) rfl rfl

theorem takeIndex (hs : Inv width first cls b s) (hc : s.queue.consumer c = .committed)
    (hlt : s.queue.headIndex < s.queue.tailIndex) :
    Inv width first cls b { s with queue :=
      { s.queue.goto c (.indexed s.queue.headIndex) with
        headIndex := s.queue.headIndex + 1 } } := by
  have hr : s.reader c = .idle := hs.reader_eq_idle (by simp [hc]) (by simp [hc])
  have hnone : holding s c = none := by simp [holding, hr, hc]
  generalize ht : ({ s with queue :=
    { s.queue.goto c (.indexed s.queue.headIndex) with
      headIndex := s.queue.headIndex + 1 } } : State κ δ) = t
  have hindex : t.index = s.index := by rw [← ht]
  have hreader : t.reader = s.reader := by rw [← ht]
  have hhead : t.queue.headIndex = s.queue.headIndex + 1 := by rw [← ht]
  have hplaced : placed t = placed s := by
    rw [← ht]
    rfl
  have hbegun : begun t = begun s := by
    rw [← ht]
    rfl
  have hself : t.queue.consumer c = .indexed s.queue.headIndex := by
    rw [← ht]
    exact Function.update_self ..
  have hother : ∀ j, j ≠ c → t.queue.consumer j = s.queue.consumer j := by
    intro j hj
    rw [← ht]
    exact Function.update_of_ne hj _ _
  have hholds : holding t c = some s.queue.headIndex := by simp [holding, hreader, hr, hself]
  have hholding : ∀ j, j ≠ c → holding t j = holding s j := by
    intro j hj
    exact holding_congr (congrFun hreader j) fun i => by rw [hother j hj]
  have hlive : ∀ n, Live t n ↔ Live s n := by
    intro n
    rw [Live, Live, hplaced, hhead]
    change (n < placed s ∧ (s.queue.headIndex + 1 < 32 * (n + 1) ∨ _)) ↔
      (n < placed s ∧ (s.queue.headIndex < 32 * (n + 1) ∨ _))
    refine and_congr_right fun _ => ⟨?_, ?_⟩
    · rintro (hlt | ⟨j, i, hi, hn⟩)
      · exact .inl (by omega)
      · by_cases hj : j = c
        · subst hj
          obtain rfl := Option.some.inj (hholds.symm.trans hi)
          have hn : s.queue.headIndex / 32 = n := hn
          exact .inl (by omega)
        · exact .inr ⟨j, i, (hholding j hj).symm.trans hi, hn⟩
    · rintro (hlt | ⟨j, i, hi, hn⟩)
      · by_cases hmore : s.queue.headIndex + 1 < 32 * (n + 1)
        · exact .inl hmore
        · refine .inr ⟨c, _, hholds, ?_⟩
          change s.queue.headIndex / 32 = n
          omega
      · have hj : j ≠ c := by
          rintro rfl
          rw [hnone] at hi
          cases hi
        exact .inr ⟨j, i, (hholding j hj).trans hi, hn⟩
  have hiff : ∀ o nb, Owns first b t o nb ↔ Owns first b s o nb := by
    intro o nb
    cases o with
    | block n =>
      rw [Owns, Owns, hindex]
      exact and_congr_left fun _ => hlive n
    | producer => rw [Owns, Owns, ← ht]
    | consumer j => rw [Owns, Owns, hreader]
  have howns := fun o nb => (hiff o nb).mp
  refine ⟨?_, ?_, ?_, ?_, ?_, ?_, ?_, ?_, ?_, ?_, ?_, ?_, ?_⟩
  · rw [hindex, hplaced, hbegun]
    exact hs.index
  · exact inserting_congr (by rw [← ht]) hindex (by rw [← ht]) hplaced hs.inserting
  · rw [← ht]
    rcases hs.room with hi | ⟨hp, hmod, hlt⟩
    · exact .inl hi
    · exact .inr ⟨hp, hmod, hlt.trans_le (Nat.add_le_add_right (Nat.le_succ _) _)⟩
  · intro n hn
    rw [hindex]
    exact hs.live n ((hlive n).mp hn)
  · intro n nb ho
    have hcount := hs.count n nb (howns _ nb ho)
    have htotal := total_of_ne (inBlock n) hholding
    rw [hholds, hnone] at htotal
    have hblock : t.block = s.block := by rw [← ht]
    rw [hblock, hhead]
    change _ = min 32 (s.queue.headIndex + 1 - 32 * n)
    change _ = min 32 (s.queue.headIndex - 32 * n) at hcount
    change _ + 0 = _ + (if s.queue.headIndex / 32 = n then 1 else 0) at htotal
    split at htotal <;> omega
  · intro n nb ho i hi hlt hslot
    rw [← ht] at hlt hslot ⊢
    exact hs.elements n nb (howns _ nb ho) i hi hlt hslot
  · intro hlt
    rw [← ht] at hlt ⊢
    exact hs.tail hlt
  · intro o nb ho
    rw [← ht]
    exact hs.owned o nb (howns o nb ho)
  · exact fun o o' nb ho ho' => hs.unique o o' nb (howns o nb ho) (howns o' nb ho')
  · intro nb hnb
    rw [← ht] at hnb
    obtain ⟨o, ho⟩ := hs.kept nb hnb
    exact ⟨o, (hiff o nb).mpr ho⟩
  · intro j i hi
    rw [hlive]
    by_cases hj : j = c
    · subst hj
      obtain rfl := Option.some.inj (hholds.symm.trans hi)
      refine ⟨div_lt_placed hlt, .inl ?_⟩
      change s.queue.headIndex < 32 * (s.queue.headIndex / 32 + 1)
      omega
    · exact hs.held j i ((hholding j hj).symm.trans hi)
  · intro j
    refine hs.reading_moves (.of_eq hindex) (congrFun hreader j) hplaced.ge (fun hj => ?_)
      (fun n _ hn hlive' => hn ((hlive n).mp hlive'))
    exact hother j fun hjc => hj (hjc ▸ hr)
  · rw [← ht]
    exact hs.intact

theorem advance (hs : Inv width first cls b s) (hc : ∀ i, s.queue.consumer c ≠ .indexed i)
    (hle : s.queue.headIndex + total ProducerQueue.Consumer.commits s.queue.consumer ≤
      s.queue.tailIndex)
    (hq : ProducerQueue.step width s.queue (.advance c) = some q) :
    Inv width first cls b { s with queue := q } := by
  cases ProducerQueue.step_cases hq with
  | advance ha =>
    have hidle : (∀ x, s.queue.consumer c ≠ .returned (some x)) → s.reader c = .idle :=
      hs.reader_eq_idle hc
    cases ha with
    | @goto k hfrom hto htaken =>
      have hk : ∀ i, k ≠ .indexed i := by
        rintro i rfl
        cases hto
      refine hs.of_consumer (same_of_consumer (hidle fun x hx => ?_) hc hk rfl rfl rfl rfl rfl)
        rfl rfl
      rw [hx] at htaken
      cases htaken.1
    | claim hcons =>
      exact hs.of_consumer (same_of_consumer (hidle (by simp [hcons])) hc (by simp) rfl rfl rfl rfl
        rfl) rfl rfl
    | commit hcons =>
      exact hs.of_consumer (same_of_consumer (hidle (by simp [hcons])) hc (by simp) rfl rfl rfl rfl
        rfl) rfl rfl
    | overcommit hcons =>
      exact hs.of_consumer (same_of_consumer (hidle (by simp [hcons])) hc (by simp) rfl rfl rfl rfl
        rfl) rfl rfl
    | index hcons =>
      have hone := le_total ProducerQueue.Consumer.commits s.queue.consumer c
      rw [hcons, ProducerQueue.Consumer.commits] at hone
      exact hs.takeIndex hcons (by omega)
    | giveUp hcons =>
      exact hs.of_consumer (same_of_consumer (hidle (by simp [hcons])) hc (by simp) rfl rfl rfl rfl
        rfl) rfl rfl
    | receive hcons => exact absurd hcons (hc _)
    | fault hcons => exact absurd hcons (hc _)

end Inv

end Counters

section Enqueue
variable {κ δ : Type*} [Fintype κ] {width : ℕ} {first cls : ℕ → ℕ} {b : ℕ} {s t : State κ δ}

omit [Fintype κ] in
theorem same_of_producer (hblock : t.block = s.block) (howned : t.owned = s.owned)
    (htailBlock : t.tailBlock = s.tailBlock) (hreader : t.reader = s.reader)
    (hfault : t.fault = s.fault) (hhead : t.queue.headIndex = s.queue.headIndex)
    (hslots : t.queue.slots = s.queue.slots)
    (hconsumer : t.queue.consumer = s.queue.consumer) (hplaced : placed t = placed s)
    (hwritten : written t = written s)
    (htail : t.queue.tailIndex / blockSize < placed s →
      t.queue.tailIndex / blockSize = s.queue.tailIndex / blockSize)
    (hplacing : ∀ x e nb, s.insertion ≠ .placing x e nb ∧ t.insertion ≠ .placing x e nb) :
    SameBlocks s t where
  block := hblock
  owned := howned
  tailBlock := htailBlock
  reader := hreader
  fault := hfault
  headIndex := hhead
  slots := hslots
  placed := hplaced
  written := hwritten
  tailIndex := htail
  consumer c _ := congrFun hconsumer c
  holding c := holding_congr (congrFun hreader c) fun i => by rw [hconsumer]
  placing x e nb :=
    ⟨fun h => absurd h (hplacing x e nb).2, fun h => absurd h (hplacing x e nb).1⟩

namespace Inv

theorem insertion_eq_idle (hs : Inv width first cls b s) (hp : s.queue.producer ≠ .idle) :
    s.insertion = .idle := hs.room.resolve_right fun h => hp h.1

theorem inserting_idle (hs : Inv width first cls b s) (hi : s.insertion = .idle)
    (hplaced : placed t = placed s) (hindex : t.index = s.index)
    (ht : t.insertion = .idle ∨ ∃ x, t.insertion = .testing x) : Inserting first b t := by
  have h := hs.inserting
  rw [Inserting, hi] at h
  rw [Inserting, hplaced, hindex]
  rcases ht with ht | ⟨x, ht⟩
  · rw [ht]
    exact h
  · rw [ht]
    exact h

theorem publish [DecidableEq κ] (hs : Inv width first cls b s) {q : ProducerQueue.State κ δ}
    (hq : ProducerQueue.step width s.queue .publish = some q) :
    Inv width first cls b { s with queue := q } := by
  cases ProducerQueue.step_cases hq with
  | publish hp =>
    have hi := hs.insertion_eq_idle (by simp [hp])
    have hplaced : (s.queue.tailIndex + 1 + 31) / 32 = s.queue.tailIndex / 32 + 1 := by omega
    refine hs.of_same (same_of_producer rfl rfl rfl rfl rfl rfl rfl rfl ?_ ?_ ?_ ?_) rfl rfl ?_
      (.inl hi)
    · rw [placed, placed, hp]
      exact hplaced
    · rw [written, written, hp]
    · intro hlt
      rw [placed, hp] at hlt
      change (s.queue.tailIndex + 1) / 32 < s.queue.tailIndex / 32 + 1 at hlt
      change (s.queue.tailIndex + 1) / 32 = s.queue.tailIndex / 32
      omega
    · simp [hi]
    · refine hs.inserting_idle hi ?_ rfl (.inl hi)
      rw [placed, placed, hp]
      exact hplaced

theorem leaveEnqueue [DecidableEq κ] (hs : Inv width first cls b s) {q : ProducerQueue.State κ δ}
    (hq : ProducerQueue.step width s.queue .leaveEnqueue = some q) :
    Inv width first cls b { s with queue := q } := by
  cases ProducerQueue.step_cases hq with
  | leaveEnqueue hp =>
    have hi := hs.insertion_eq_idle (by simp [hp])
    have hplaced : placed { s with queue := { s.queue with producer := .idle } } = placed s := by
      rw [placed, placed, hp]
    refine hs.of_same (same_of_producer rfl rfl rfl rfl rfl rfl rfl rfl hplaced ?_
      (fun _ => rfl) (by simp [hi])) rfl rfl (hs.inserting_idle hi hplaced rfl (.inl hi)) (.inl hi)
    rw [written, written, hp]

theorem begin (hs : Inv width first cls b s) {x : δ} (hwidth : 6 ≤ width)
    (hrooms : ProducerQueue.Room width s.queue) (hp : s.queue.producer = .idle)
    (hi : s.insertion = .idle) (hend : s.queue.tailIndex % blockSize = 0)
    (hroom : circularLessThan width s.queue.headIndex (s.queue.tailIndex + blockSize) = true) :
    Inv width first cls b { s with insertion := .testing x } := by
  refine hs.of_same (same_of_producer rfl rfl rfl rfl rfl rfl rfl rfl rfl rfl
    (fun _ => rfl) (by simp [hi])) rfl ?_ (hs.inserting_idle hi rfl rfl (.inr ⟨x, rfl⟩))
    (.inr ⟨hp, hend, ?_⟩)
  · rw [hi]
    rfl
  · have hok : s.queue.refused width true = false := by
      rw [ProducerQueue.State.refused, hroom]
      exact Bool.and_false _
    have hlt := hrooms.enqueue hwidth hok
    change s.queue.tailIndex % 32 = 0 at hend
    change (s.queue.tailIndex + 32) / 32 * 32 < _ at hlt
    change s.queue.tailIndex + 32 < s.queue.headIndex + 2 ^ (width - 1)
    omega

theorem full (hs : Inv width first cls b s) (hp : s.queue.producer = .idle)
    (hi : s.insertion = .idle) : Inv width first cls b s.refuse := by
  have hplaced : placed s.refuse = placed s := by
    rw [placed, placed, hp]
    rfl
  refine hs.of_same (same_of_producer rfl rfl rfl rfl rfl rfl rfl rfl hplaced ?_
    (fun _ => rfl) (by simp [State.refuse, hi])) rfl ?_
    (hs.inserting_idle hi hplaced rfl (.inl rfl)) (.inl rfl)
  · rw [written, written, hp]
    rfl
  · rw [hi]
    rfl

theorem inside (hs : Inv width first cls b s) {x : δ} (hp : s.queue.producer = .idle)
    (hi : s.insertion = .idle) (hin : s.queue.tailIndex % blockSize ≠ 0) :
    Inv width first cls b
      { s with queue := { s.queue with producer := .constructing x } } := by
  have hplaced : placed { s with queue := { s.queue with producer := .constructing x } } =
      placed s := by
    rw [placed, placed, hp]
    change s.queue.tailIndex % 32 ≠ 0 at hin
    change s.queue.tailIndex / 32 + 1 = (s.queue.tailIndex + 31) / 32
    omega
  refine hs.of_same (same_of_producer rfl rfl rfl rfl rfl rfl rfl rfl hplaced ?_
    (fun _ => rfl) (by simp [hi])) rfl rfl (hs.inserting_idle hi hplaced rfl (.inl hi)) (.inl hi)
  rw [written, written, hp]

theorem noMemory (hs : Inv width first cls b s) {x : δ} (hi : s.insertion = .growing x) :
    Inv width first cls b s.refuse := by
  obtain ⟨hp, -⟩ := hs.room.resolve_left (by simp [hi])
  have hplaced : placed s.refuse = placed s := by
    rw [placed, placed, hp]
    rfl
  have hgrowing := hs.inserting
  rw [Inserting, hi] at hgrowing
  obtain ⟨m, hm, hkey⟩ := hgrowing
  refine hs.of_same (same_of_producer rfl rfl rfl rfl rfl rfl rfl rfl hplaced ?_
    (fun _ => rfl) (by simp [State.refuse, hi])) rfl ?_ ?_ (.inl rfl)
  · rw [written, written, hp]
    rfl
  · rw [hi]
    rfl
  · rw [Inserting, hplaced]
    intro hnext
    have heq := Nat.eq_of_mul_eq_mul_left (by decide) (Option.some.inj (hkey.symm.trans hnext))
    have hpos := hs.index.pos le_rfl
    omega

theorem begun_eq (hs : Inv width first cls b s) (hi : s.insertion.begun = 0) :
    Indexed width first cls s.index b (placed s) (placed s) := by
  have h := hs.index
  rwa [begun, hi] at h

theorem idxEntry (hs : Inv width first cls b s) (hi : s.insertion.begun = 0) :
    s.index.idxEntry b = s.index.slot first b (placed s) := (hs.begun_eq hi).idxEntry

theorem vacant (hs : Inv width first cls b s) {x : δ} (hi : s.insertion = .testing x)
    (hfree : (s.index.entry (s.index.idxEntry b)).key = none ∨
      (s.index.entry (s.index.idxEntry b)).value = none) :
    Inv width first cls b { s with insertion := .keying x (s.index.idxEntry b) } := by
  have hzero : s.insertion.begun = 0 := by
    rw [hi]
    rfl
  refine hs.of_same (same_of_producer rfl rfl rfl rfl rfl rfl rfl rfl rfl rfl
    (fun _ => rfl) (by simp [hi])) rfl hzero.symm ?_ (.inr (hs.room.resolve_left (by simp [hi])))
  rw [hs.idxEntry hzero] at hfree ⊢
  exact ⟨rfl, hfree⟩

theorem taken (hs : Inv width first cls b s) {x : δ} (hi : s.insertion = .testing x)
    (hkey : (s.index.entry (s.index.idxEntry b)).key ≠ none)
    (hvalue : (s.index.entry (s.index.idxEntry b)).value ≠ none) :
    Inv width first cls b { s with insertion := .growing x } := by
  have hzero : s.insertion.begun = 0 := by
    rw [hi]
    rfl
  have hindex := hs.begun_eq hzero
  refine hs.of_same (same_of_producer rfl rfl rfl rfl rfl rfl rfl rfl rfl rfl
    (fun _ => rfl) (by simp [hi])) rfl hzero.symm ?_ (.inr (hs.room.resolve_left (by simp [hi])))
  rw [hs.idxEntry hzero] at hkey hvalue
  have hspare := hs.inserting
  rw [Inserting, hi] at hspare
  obtain ⟨k, hk⟩ := Option.ne_none_iff_exists'.mp hkey
  obtain ⟨m, hm, rfl, -, hle, hmod⟩ := hindex.keys _ (hindex.slot_lt b le_rfl _) k hk
  have hne : m ≠ placed s := by
    rintro rfl
    exact hvalue (hspare hk)
  have hmod' := hmod.trans (hindex.cls_slot b le_rfl _)
  obtain ⟨d, hd⟩ : ∃ d, placed s = m + d := ⟨placed s - m, by omega⟩
  rw [hd] at hmod'
  have hdvd := Nat.modEq_zero_iff_dvd.mp
    (Nat.ModEq.add_left_cancel' m (hmod'.symm : m + d ≡ m + 0 [MOD _]))
  have hcap := Nat.le_of_dvd (by omega) hdvd
  exact ⟨m, show m + (s.index.header b).capacity = placed s by omega, hk⟩

theorem noBlock (hs : Inv width first cls b s) {x : δ} {e : ℕ}
    (hi : s.insertion = .inserted x e) :
    Inv width first cls b { s with insertion := .rewinding x e } := by
  refine hs.of_same (same_of_producer rfl rfl rfl rfl rfl rfl rfl rfl rfl rfl
    (fun _ => rfl) (by simp [hi])) rfl ?_ ?_ (.inr (hs.room.resolve_left (by simp [hi])))
  · rw [hi]
    rfl
  · have h := hs.inserting
    rw [Inserting, hi] at h
    exact h

theorem tailIndex_eq (hs : Inv width first cls b s) (hi : s.insertion ≠ .idle) :
    placed s = s.queue.tailIndex / blockSize ∧ s.queue.tailIndex = blockSize * placed s := by
  obtain ⟨hp, hmod, -⟩ := hs.room.resolve_left hi
  have hplaced : placed s = s.queue.tailIndex / blockSize :=
    placed_of_mod hmod fun x => by simp [hp]
  refine ⟨hplaced, ?_⟩
  change s.queue.tailIndex % 32 = 0 at hmod
  rw [hplaced]
  change s.queue.tailIndex = 32 * (s.queue.tailIndex / 32)
  omega

theorem storeKey (hs : Inv width first cls b s) {x : δ} (hi : s.insertion ≠ .idle)
    (hzero : s.insertion.begun = 0)
    (hfree : (s.index.entry (s.index.slot first b (placed s))).key = none ∨
      (s.index.entry (s.index.slot first b (placed s))).value = none) :
    Inv width first cls b { s with
      index := s.index.storeKey (s.index.slot first b (placed s)) s.queue.tailIndex
      insertion := .keyed x (s.index.slot first b (placed s)) } := by
  obtain ⟨hplaced, htail⟩ := hs.tailIndex_eq hi
  have hkeyed : ((s.index.storeKey (s.index.slot first b (placed s)) s.queue.tailIndex).entry
      (s.index.slot first b (placed s))).key = some (blockSize * placed s) := by
    rw [htail]
    simp [BlockIndex.State.storeKey]
  have hplacing : ∀ y e nb, s.insertion ≠ .placing y e nb := by
    intro y e nb h
    simp [h, Insertion.begun] at hzero
  refine hs.of_moves (same_of_producer rfl rfl rfl rfl rfl rfl rfl rfl rfl rfl (fun _ => rfl)
    fun y e nb => ⟨hplacing y e nb, by simp⟩)
    (.of_keep hs rfl le_rfl le_rfl ?_ ?_ (fun _ _ => ⟨rfl, rfl, rfl⟩) fun _ _ => rfl) ?_ ?_
    ⟨rfl, hkeyed⟩ (.inr (hs.room.resolve_left hi))
  · intro e he n hn hkey hvalue
    have hne : e ≠ s.index.slot first b (placed s) := by
      rintro rfl
      rcases hfree with hnone | hnone
      · simp [hnone] at hkey
      · exact hvalue hnone
    exact Function.update_of_ne hne _ _
  · intro e he hkey
    by_cases hne : e = s.index.slot first b (placed s)
    · rw [hne]
      simp [BlockIndex.State.storeKey]
    · simpa [BlockIndex.State.storeKey, hne] using hkey
  · have h := (hs.begun_eq hzero).storeKey
    rw [← htail] at h
    exact h
  · exact fun _ => BlockIndex.value_storeKey _ _ _

theorem keying (hs : Inv width first cls b s) {x : δ} {e : ℕ} (hi : s.insertion = .keying x e) :
    Inv width first cls b { s with
      index := s.index.storeKey e s.queue.tailIndex
      insertion := .keyed x e } := by
  have h := hs.inserting
  rw [Inserting, hi] at h
  obtain ⟨rfl, hfree⟩ := h
  exact hs.storeKey (by simp [hi]) (by rw [hi]; rfl) hfree

theorem grown (hs : Inv width first cls b s) {x : δ} (hi : s.insertion = .grown x) :
    (s.index.entry (s.index.idxEntry b)).key = none ∧ Inv width first cls b { s with
      index := s.index.storeKey (s.index.idxEntry b) s.queue.tailIndex
      insertion := .keyed x (s.index.idxEntry b) } := by
  have hzero : s.insertion.begun = 0 := by
    rw [hi]
    rfl
  have h := hs.inserting
  rw [Inserting, hi] at h
  rw [hs.idxEntry hzero]
  exact ⟨h, hs.storeKey (by simp [hi]) hzero (.inl h)⟩

omit [Fintype κ] in
theorem moves_storeTail (tail : ℕ) (i : Insertion δ) :
    Moves first first b b s { s with index := s.index.storeTail b tail, insertion := i } where
  le := le_rfl
  entryCount := le_rfl
  entry _ _ := rfl
  last _ _ _ _ := rfl
  keyed _ _ h := h
  header _ _ :=
    ⟨(BlockIndex.header_storeTail b tail).1, (BlockIndex.header_storeTail b tail).2, rfl⟩
  slot _ _ := BlockIndex.slot_storeTail b tail

theorem storeTail (hs : Inv width first cls b s) {x : δ} {e : ℕ} (hi : s.insertion = .keyed x e) :
    Inv width first cls b { s with
      index := s.index.storeTail b (s.index.newTail b)
      insertion := .inserted x e } := by
  have h := hs.inserting
  rw [Inserting, hi] at h
  obtain ⟨rfl, hkey⟩ := h
  have hindex := (hs.begun_eq (by rw [hi]; rfl)).storeTail hkey
  refine hs.of_moves (same_of_producer rfl rfl rfl rfl rfl rfl rfl rfl rfl rfl (fun _ => rfl)
    (by simp [hi])) (moves_storeTail _ _) hindex (fun _ => ?_) ?_
    (.inr (hs.room.resolve_left (by simp [hi])))
  · exact congrArg (fun e => (s.index.entry e).value) (BlockIndex.slot_storeTail b _)
  · rw [Inserting]
    dsimp only
    rw [BlockIndex.slot_storeTail]
    exact ⟨rfl, hkey⟩

theorem rewind (hs : Inv width first cls b s) {x : δ} {e : ℕ} (hi : s.insertion = .rewinding x e) :
    Inv width first cls b
      { s with index := s.index.rewindTail b, insertion := .clearing x e } := by
  have h := hs.inserting
  rw [Inserting, hi] at h
  obtain ⟨rfl, hkey⟩ := h
  have hbegun : begun s = placed s + 1 := by rw [begun, hi]; rfl
  have hindex := (hbegun ▸ hs.index).rewindTail
  refine hs.of_moves (same_of_producer rfl rfl rfl rfl rfl rfl rfl rfl rfl rfl (fun _ => rfl)
    (by simp [hi])) (moves_storeTail _ _) hindex (fun _ => ?_) ?_
    (.inr (hs.room.resolve_left (by simp [hi])))
  · exact congrArg (fun e => (s.index.entry e).value) (BlockIndex.slot_storeTail b _)
  · rw [Inserting]
    dsimp only
    rw [BlockIndex.State.rewindTail, BlockIndex.slot_storeTail]
    exact ⟨rfl, hkey⟩

theorem clearEntry (hs : Inv width first cls b s) {x : δ} {e : ℕ}
    (hi : s.insertion = .clearing x e) :
    Inv width first cls b ({ s with index := s.index.storeValue e none }).refuse := by
  have h := hs.inserting
  rw [Inserting, hi] at h
  obtain ⟨rfl, hkey⟩ := h
  obtain ⟨hplaced, htail⟩ := hs.tailIndex_eq (by simp [hi])
  obtain ⟨hp, -⟩ := hs.room.resolve_left (by simp [hi])
  have hsame : placed ({ s with
      index := s.index.storeValue (s.index.slot first b (placed s)) none }).refuse = placed s := by
    rw [placed, placed, hp]
    rfl
  refine hs.of_moves (same_of_producer rfl rfl rfl rfl rfl rfl rfl rfl hsame ?_ (fun _ => rfl)
    (by simp [State.refuse, hi]))
    (.of_keep hs rfl le_rfl le_rfl ?_ ?_ (fun _ _ => ⟨rfl, rfl, rfl⟩) fun _ _ => rfl)
    ?_ ?_ ?_ (.inl rfl)
  · rw [written, written, hp]
    rfl
  · intro e he n hn hkey' hvalue
    have hne : e ≠ s.index.slot first b (placed s) := by
      rintro rfl
      rw [hkey] at hkey'
      have := Nat.eq_of_mul_eq_mul_left (by decide) (Option.some.inj hkey')
      omega
    exact Function.update_of_ne hne _ _
  · intro e he hne
    exact (BlockIndex.key_storeValue _ _ _).trans_ne hne
  · have hindex := (hs.begun_eq (by rw [hi]; rfl)).storeValue
      (s.index.slot first b (placed s)) none
    rw [begun, hsame]
    exact hindex
  · intro hlt
    change s.queue.tailIndex / blockSize < placed s at hlt
    omega
  · rw [Inserting, hsame]
    intro _
    simp [State.refuse, BlockIndex.State.storeValue, BlockIndex.State.slot]

theorem grow (hs : Inv width first cls b s) {x : δ} (hi : s.insertion = .growing x)
    (hfits : blockSize * s.index.nextBlockIndexCapacity ≤ 2 ^ width) :
    ∃ first' cls', Inv width first' cls' (b + 1)
      { s with index := s.index.newBlockIndex, insertion := .grown x } := by
  have h := hs.inserting
  rw [Inserting, hi] at h
  obtain ⟨m, hm, hfull⟩ := h
  have hzero : s.insertion.begun = 0 := by
    rw [hi]
    rfl
  have hindex := hs.begun_eq hzero
  have hdvd : blockSize * s.index.nextBlockIndexCapacity ∣ 2 ^ width := by
    obtain ⟨k, hk⟩ := hindex.capacity_pow
    have hpow : blockSize * s.index.nextBlockIndexCapacity = 2 ^ (5 + (k + 1)) := by
      rw [hindex.next, hk, blockSize]
      ring
    rw [hpow] at hfits ⊢
    exact Nat.pow_dvd_pow 2 ((Nat.pow_le_pow_iff_right (by omega)).mp hfits)
  obtain ⟨hplaced, htail⟩ := hs.tailIndex_eq (by simp [hi])
  have hcount := BlockIndex.entryCount_newBlockIndex hindex.current
  have hpos := hindex.pos le_rfl
  refine ⟨Function.update first (b + 1) m, Indexed.renumber s.index b m cls,
    hs.of_moves (same_of_producer rfl rfl rfl rfl rfl rfl rfl rfl rfl rfl (fun _ => rfl)
      (by simp [hi])) (.of_keep hs rfl (Nat.le_succ b) ?_ ?_ ?_ ?_ ?_)
      (hindex.newBlockIndex hm hdvd hfull) ?_ ?_ (.inr (hs.room.resolve_left (by simp [hi])))⟩
  · change _ ≤ s.index.newBlockIndex.entryCount
    omega
  · exact fun e he n _ _ _ => BlockIndex.entry_newBlockIndex_of_lt he
  · intro e he hne
    change (s.index.newBlockIndex.entry e).key ≠ none
    rwa [BlockIndex.entry_newBlockIndex_of_lt he]
  · intro h hh
    have hsame : s.index.newBlockIndex.header h = s.index.header h :=
      BlockIndex.header_newBlockIndex_of_ne hindex.current (by omega)
    exact ⟨congrArg _ hsame, congrArg _ hsame, Function.update_of_ne (by omega) _ _⟩
  · intro n hlive
    have hle := hs.le_add_capacity hlive
    rw [begun, hzero] at hle
    obtain ⟨p, rfl⟩ : ∃ p, n = m + p := ⟨n - m, by omega⟩
    exact hindex.slot_newBlockIndex_copied hm (by have := hlive.1; omega)
  · intro hlt
    change s.queue.tailIndex / blockSize < placed s at hlt
    omega
  · change (s.index.newBlockIndex.entry (s.index.newBlockIndex.slot _ (b + 1) (placed s))).key =
      none
    have hfresh : s.index.newBlockIndex.slot (Function.update first (b + 1) m) (b + 1) (placed s) =
        s.index.entryCount := hindex.slot_newBlockIndex_fresh hm hpos
    rw [hfresh]
    exact BlockIndex.key_newBlockIndex_of_le hindex.current le_rfl (by omega)

end Inv

end Enqueue

end BlockQueue
end PyCtp
