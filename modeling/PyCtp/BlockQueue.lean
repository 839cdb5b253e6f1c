import PyCtp.BlockIndex
import PyCtp.ProducerQueueRuns

/-!
# The blocks of one producer

`ImplicitProducer` with its elements in blocks: `enqueue` begins a block with an entry in the
block index and a block from the pool of the parent, `dequeue` finds the block through the index,
counts the elements taken from it, and gives it back after the last one. A step is one access to
shared memory. The counters and tickets are those of `ProducerQueue`, whose slots are kept beside
the blocks to compare with; no step reads them.
-/
namespace PyCtp
open LabelledRuns Tallies

namespace BlockQueue
open ProducerQueue (blockSize circularLessThan)

structure Block (δ : Type*) where
  elements : ℕ → Option δ
  elementsCompletelyDequeued : ℕ

/-- The producer at the end of a block: about to look at the next entry of the index, to store a
key, to make a new index; with one; having stored the key, the tail; with a new block; or without
one, taking back the tail and the entry. -/
inductive Insertion (δ : Type*)
  | idle
  | testing (element : δ)
  | keying (element : δ) (idxEntry : ℕ)
  | growing (element : δ)
  | grown (element : δ)
  | keyed (element : δ) (idxEntry : ℕ)
  | inserted (element : δ) (idxEntry : ℕ)
  | placing (element : δ) (idxEntry newBlock : ℕ)
  | rewinding (element : δ) (idxEntry : ℕ)
  | clearing (element : δ) (idxEntry : ℕ)

/-- A consumer with an index: not yet looking for the block; with the header, the tail, the entry,
the block; having moved the element out; having counted it as the last one of its block; having
cleared the entry. -/
inductive Reader
  | idle
  | headed (index header : ℕ)
  | tailed (index header tail : ℕ)
  | entried (index entry : ℕ)
  | found (index entry block : ℕ)
  | read (index entry block : ℕ)
  | last (entry block : ℕ)
  | freeing (block : ℕ)

/-- `owned`: the blocks that the pool has given out. `fault`: an assertion about keys, entries or
the counter of a block failed, or a pointer was null; those about the tail and the tickets are of
`ProducerQueue`. -/
structure State (κ δ : Type*) where
  queue : ProducerQueue.State κ δ
  index : BlockIndex.State
  block : ℕ → Block δ
  owned : ℕ → Bool
  tailBlock : Option ℕ
  insertion : Insertion δ
  reader : κ → Reader
  fault : Bool

variable {κ δ : Type*}

/-- After the constructor: with an index, unless there was no memory for it. The memory may hold
anything. -/
def State.start (memory : Bool) (header : ℕ → BlockIndex.BlockIndexHeader)
    (entry : ℕ → BlockIndex.BlockIndexEntry) (block : ℕ → Block δ) : State κ δ where
  queue := .start
  index :=
    if memory then (BlockIndex.State.empty header entry).newBlockIndex
    else .empty header entry
  block := block
  owned _ := false
  tailBlock := none
  insertion := .idle
  reader _ := .idle
  fault := false

/-- `insert` and `lookup` are the next steps of the producer in a new block and of a consumer with
an index; `newBlockIndex` and `requisition` depend on the memory and the pool. -/
inductive Event (κ δ : Type*)
  | enqueue (element : δ)
  | insert
  | newBlockIndex (allocated : Bool)
  | requisition (newBlock : Option ℕ)
  | construct
  | publish
  | leaveEnqueue
  | tryDequeue (c : κ)
  | advance (c : κ)
  | lookup (c : κ)
  | leave (c : κ)

section Steps
variable [DecidableEq κ] (width : ℕ)

namespace State

def fail (s : State κ δ) : State κ δ := { s with fault := true }

def refuse (s : State κ δ) : State κ δ :=
  { s with insertion := .idle, queue := { s.queue with producer := .returned false } }

def readerGoto (s : State κ δ) (c : κ) (r : Reader) : State κ δ :=
  { s with reader := Function.update s.reader c r }

def onQueue (s : State κ δ) (e : ProducerQueue.Event κ δ) : Option (State κ δ) :=
  (ProducerQueue.step width s.queue e).map fun queue => { s with queue := queue }

/-- The next step of `insert_block_index_entry` and of what `enqueue` does around it. -/
def insert (s : State κ δ) : Option (State κ δ) :=
  match s.insertion, s.index.blockIndex with
  | .testing _, none => some s.refuse
  | .testing element, some b =>
    let idxEntry := s.index.idxEntry b
    let entry := s.index.entry idxEntry
    some { s with insertion :=
      if entry.key = none ∨ entry.value = none then .keying element idxEntry
      else .growing element }
  | .keying element idxEntry, _ =>
    some { s with
      index := s.index.storeKey idxEntry s.queue.tailIndex
      insertion := .keyed element idxEntry }
  | .grown element, some b =>
    let idxEntry := s.index.idxEntry b
    if (s.index.entry idxEntry).key = none then
      some { s with
        index := s.index.storeKey idxEntry s.queue.tailIndex
        insertion := .keyed element idxEntry }
    else some s.fail
  | .keyed element idxEntry, some b =>
    some { s with
      index := s.index.storeTail b (s.index.newTail b)
      insertion := .inserted element idxEntry }
  | .placing element idxEntry newBlock, _ =>
    some { s with
      index := s.index.storeValue idxEntry (some newBlock)
      tailBlock := some newBlock
      insertion := .idle
      queue := { s.queue with producer := .constructing element } }
  | .rewinding element idxEntry, some b =>
    some { s with index := s.index.rewindTail b, insertion := .clearing element idxEntry }
  | .clearing _ idxEntry, _ =>
    some ({ s with index := s.index.storeValue idxEntry none }).refuse
  | _, _ => none

def move (s : State κ δ) (c : κ) (index entry block : ℕ) (element : δ) : State κ δ :=
  { s with
    block := Function.update s.block block
      { s.block block with
        elements := Function.update (s.block block).elements (index % blockSize) none }
    reader := Function.update s.reader c (.read index entry block)
    queue := { s.queue.goto c (.returned (some element)) with
      slots := Function.update s.queue.slots index none
      received := s.queue.received ++ [(index, element)] } }

/-- `set_empty`, whose result says whether the element was the last one of the block. -/
def setEmpty (s : State κ δ) (c : κ) (entry block : ℕ) : State κ δ :=
  let prevVal := (s.block block).elementsCompletelyDequeued
  { s with
    block := Function.update s.block block
      { s.block block with elementsCompletelyDequeued := prevVal + 1 }
    reader := Function.update s.reader c
      (if prevVal = blockSize - 1 then .last entry block else .idle) }

/-- The next step of `dequeue` after it has taken an index. -/
def lookup (s : State κ δ) (c : κ) : Option (State κ δ) :=
  match s.reader c with
  | .idle =>
    match s.queue.consumer c, s.index.blockIndex with
    | .indexed index, some b => some (s.readerGoto c (.headed index b))
    | .indexed _, none => some s.fail
    | _, _ => none
  | .headed index h => some (s.readerGoto c (.tailed index h (s.index.header h).tail))
  | .tailed index h tail =>
    match (s.index.entry ((s.index.header h).index tail)).key with
    | none => some s.fail
    | some tailBase =>
      let e := (s.index.header h).index
        (BlockIndex.lookup width (s.index.header h) index tail tailBase)
      if (s.index.entry e).key = some (index / blockSize * blockSize) ∧
          (s.index.entry e).value ≠ none then
        some (s.readerGoto c (.entried index e))
      else some s.fail
  | .entried index e =>
    match (s.index.entry e).value with
    | none => some s.fail
    | some block => some (s.readerGoto c (.found index e block))
  | .found index e block =>
    match (s.block block).elements (index % blockSize) with
    | none => some s.fail
    | some element => some (s.move c index e block element)
  | .read _ e block =>
    if (s.block block).elementsCompletelyDequeued < blockSize then some (s.setEmpty c e block)
    else some s.fail
  | .last e block =>
    some { s.readerGoto c (.freeing block) with index := s.index.storeValue e none }
  | .freeing block =>
    some { s.readerGoto c .idle with owned := Function.update s.owned block false }

end State

/-- An index array must fit in the address space, so that its blocks can be told apart. The
element's constructor does not throw. -/
def step (s : State κ δ) (e : Event κ δ) : Option (State κ δ) :=
  if s.fault then none else
  match e with
  | .enqueue element =>
    match s.queue.producer, s.insertion with
    | .idle, .idle =>
      some (if s.queue.tailIndex % blockSize = 0 then
        if circularLessThan width s.queue.headIndex (s.queue.tailIndex + blockSize) then
          { s with insertion := .testing element }
        else s.refuse
      else { s with queue := { s.queue with producer := .constructing element } })
    | _, _ => none
  | .insert => s.insert
  | .newBlockIndex allocated =>
    match s.insertion with
    | .growing element =>
      if allocated then
        if blockSize * s.index.nextBlockIndexCapacity ≤ 2 ^ width then
          some { s with index := s.index.newBlockIndex, insertion := .grown element }
        else none
      else some s.refuse
    | _ => none
  | .requisition newBlock =>
    match s.insertion, newBlock with
    | .inserted element idxEntry, none =>
      some { s with insertion := .rewinding element idxEntry }
    | .inserted element idxEntry, some newBlock =>
      if s.owned newBlock then none
      else some { s with
        owned := Function.update s.owned newBlock true
        block := Function.update s.block newBlock
          { s.block newBlock with elementsCompletelyDequeued := 0 }
        insertion := .placing element idxEntry newBlock }
    | _, _ => none
  | .construct =>
    match s.queue.producer, s.tailBlock with
    | .constructing element, some tailBlock =>
      some { s with
        block := Function.update s.block tailBlock
          { s.block tailBlock with
            elements := Function.update (s.block tailBlock).elements
              (s.queue.tailIndex % blockSize) (some element) }
        queue := { s.queue with
          slots := Function.update s.queue.slots s.queue.tailIndex (some element)
          producer := .publishing element } }
    | .constructing _, none => some s.fail
    | _, _ => none
  | .publish => s.onQueue width .publish
  | .leaveEnqueue => s.onQueue width .leaveEnqueue
  | .tryDequeue c => s.onQueue width (.tryDequeue c)
  | .advance c =>
    match s.queue.consumer c with
    | .indexed _ => none
    | _ => s.onQueue width (.advance c)
  | .lookup c => s.lookup width c
  | .leave c =>
    match s.reader c with
    | .idle => s.onQueue width (.leave c)
    | _ => none

end Steps

section Cases
variable [DecidableEq κ] {width : ℕ} {s t : State κ δ} {c : κ}

inductive Lookup (width : ℕ) (s : State κ δ) (c : κ) : State κ δ → Prop
  | header {i b : ℕ} (hr : s.reader c = .idle) (hc : s.queue.consumer c = .indexed i)
      (hb : s.index.blockIndex = some b) : Lookup width s c (s.readerGoto c (.headed i b))
  | noHeader {i : ℕ} (hr : s.reader c = .idle) (hc : s.queue.consumer c = .indexed i)
      (hb : s.index.blockIndex = none) : Lookup width s c s.fail
  | tail {i h : ℕ} (hr : s.reader c = .headed i h) :
      Lookup width s c (s.readerGoto c (.tailed i h (s.index.header h).tail))
  | noKey {i h tail : ℕ} (hr : s.reader c = .tailed i h tail)
      (hk : (s.index.entry ((s.index.header h).index tail)).key = none) : Lookup width s c s.fail
  | entry {i h tail k e : ℕ} (hr : s.reader c = .tailed i h tail)
      (hk : (s.index.entry ((s.index.header h).index tail)).key = some k)
      (he : e = (s.index.header h).index (BlockIndex.lookup width (s.index.header h) i tail k)) :
      Lookup width s c (s.readerGoto c (.entried i e))
  | wrongEntry {i h tail k : ℕ} (hr : s.reader c = .tailed i h tail)
      (hk : (s.index.entry ((s.index.header h).index tail)).key = some k)
      (hwrong : ¬((s.index.entry ((s.index.header h).index
          (BlockIndex.lookup width (s.index.header h) i tail k))).key =
            some (i / blockSize * blockSize) ∧
        (s.index.entry ((s.index.header h).index
          (BlockIndex.lookup width (s.index.header h) i tail k))).value ≠ none)) :
      Lookup width s c s.fail
  | block {i e nb : ℕ} (hr : s.reader c = .entried i e)
      (hv : (s.index.entry e).value = some nb) : Lookup width s c (s.readerGoto c (.found i e nb))
  | noBlock {i e : ℕ} (hr : s.reader c = .entried i e) (hv : (s.index.entry e).value = none) :
      Lookup width s c s.fail
  | move {i e nb : ℕ} {x : δ} (hr : s.reader c = .found i e nb)
      (hx : (s.block nb).elements (i % blockSize) = some x) :
      Lookup width s c (s.move c i e nb x)
  | noElement {i e nb : ℕ} (hr : s.reader c = .found i e nb)
      (hx : (s.block nb).elements (i % blockSize) = none) : Lookup width s c s.fail
  | setEmpty {i e nb : ℕ} (hr : s.reader c = .read i e nb) : Lookup width s c (s.setEmpty c e nb)
  | overfull {i e nb : ℕ} (hr : s.reader c = .read i e nb)
      (hge : blockSize ≤ (s.block nb).elementsCompletelyDequeued) : Lookup width s c s.fail
  | clear {e nb : ℕ} (hr : s.reader c = .last e nb) :
      Lookup width s c
        { s.readerGoto c (.freeing nb) with index := s.index.storeValue e none }
  | free {nb : ℕ} (hr : s.reader c = .freeing nb) :
      Lookup width s c
        { s.readerGoto c .idle with owned := Function.update s.owned nb false }

theorem lookup_cases (h : s.lookup width c = some t) : Lookup width s c t := by
  rw [State.lookup] at h
  cases hr : s.reader c with
  | idle =>
    rw [hr] at h
    dsimp only at h
    split at h
    · rename_i i b hc hb
      obtain rfl := Option.some.inj h
      exact .header hr hc hb
    · rename_i i hc hb
      obtain rfl := Option.some.inj h
      exact .noHeader hr hc hb
    · cases h
  | headed i hd =>
    rw [hr] at h
    obtain rfl := Option.some.inj h
    exact .tail hr
  | tailed i hd tail =>
    rw [hr] at h
    dsimp only at h
    split at h
    · rename_i hk
      obtain rfl := Option.some.inj h
      exact .noKey hr hk
    · rename_i k hk
      split at h
      · obtain rfl := Option.some.inj h
        exact .entry hr hk rfl
      · rename_i hwrong
        obtain rfl := Option.some.inj h
        exact .wrongEntry hr hk hwrong
  | entried i e =>
    rw [hr] at h
    dsimp only at h
    split at h
    · rename_i hv
      obtain rfl := Option.some.inj h
      exact .noBlock hr hv
    · rename_i nb hv
      obtain rfl := Option.some.inj h
      exact .block hr hv
  | found i e nb =>
    rw [hr] at h
    dsimp only at h
    split at h
    · rename_i hx
      obtain rfl := Option.some.inj h
      exact .noElement hr hx
    · rename_i x hx
      obtain rfl := Option.some.inj h
      exact .move hr hx
  | read i e nb =>
    rw [hr] at h
    dsimp only at h
    split at h
    · obtain rfl := Option.some.inj h
      exact .setEmpty hr
    · rename_i hge
      obtain rfl := Option.some.inj h
      exact .overfull hr (not_lt.mp hge)
  | last e nb =>
    rw [hr] at h
    obtain rfl := Option.some.inj h
    exact .clear hr
  | freeing nb =>
    rw [hr] at h
    obtain rfl := Option.some.inj h
    exact .free hr

inductive Insert (s : State κ δ) : State κ δ → Prop
  | noIndex {x : δ} (hi : s.insertion = .testing x) (hb : s.index.blockIndex = none) :
      Insert s s.refuse
  | vacant {x : δ} {b : ℕ} (hi : s.insertion = .testing x) (hb : s.index.blockIndex = some b)
      (hfree : (s.index.entry (s.index.idxEntry b)).key = none ∨
        (s.index.entry (s.index.idxEntry b)).value = none) :
      Insert s { s with insertion := .keying x (s.index.idxEntry b) }
  | taken {x : δ} {b : ℕ} (hi : s.insertion = .testing x) (hb : s.index.blockIndex = some b)
      (hkey : (s.index.entry (s.index.idxEntry b)).key ≠ none)
      (hvalue : (s.index.entry (s.index.idxEntry b)).value ≠ none) :
      Insert s { s with insertion := .growing x }
  | storeKey {x : δ} {e : ℕ} (hi : s.insertion = .keying x e) : Insert s { s with
      index := s.index.storeKey e s.queue.tailIndex
      insertion := .keyed x e }
  | storeNewKey {x : δ} {b : ℕ} (hi : s.insertion = .grown x) (hb : s.index.blockIndex = some b) :
      Insert s { s with
        index := s.index.storeKey (s.index.idxEntry b) s.queue.tailIndex
        insertion := .keyed x (s.index.idxEntry b) }
  | usedKey {x : δ} {b : ℕ} (hi : s.insertion = .grown x) (hb : s.index.blockIndex = some b)
      (hkey : (s.index.entry (s.index.idxEntry b)).key ≠ none) : Insert s s.fail
  | storeTail {x : δ} {e b : ℕ} (hi : s.insertion = .keyed x e)
      (hb : s.index.blockIndex = some b) : Insert s { s with
      index := s.index.storeTail b (s.index.newTail b)
      insertion := .inserted x e }
  | place {x : δ} {e nb : ℕ} (hi : s.insertion = .placing x e nb) : Insert s { s with
      index := s.index.storeValue e (some nb)
      tailBlock := some nb
      insertion := .idle
      queue := { s.queue with producer := .constructing x } }
  | rewind {x : δ} {e b : ℕ} (hi : s.insertion = .rewinding x e)
      (hb : s.index.blockIndex = some b) :
      Insert s { s with index := s.index.rewindTail b, insertion := .clearing x e }
  | clear {x : δ} {e : ℕ} (hi : s.insertion = .clearing x e) :
      Insert s ({ s with index := s.index.storeValue e none }).refuse

omit [DecidableEq κ] in
theorem insert_cases (h : s.insert = some t) : Insert s t := by
  rw [State.insert] at h
  split at h
  · rename_i x hi hb
    obtain rfl := Option.some.inj h
    exact .noIndex hi hb
  · rename_i x b hi hb
    obtain rfl := Option.some.inj h
    split
    · rename_i hfree
      exact .vacant hi hb hfree
    · rename_i htaken
      exact .taken hi hb (not_or.mp htaken).1 (not_or.mp htaken).2
  · rename_i x e hi
    obtain rfl := Option.some.inj h
    exact .storeKey hi
  · rename_i x b hi hb
    dsimp only at h
    split at h
    · obtain rfl := Option.some.inj h
      exact .storeNewKey hi hb
    · rename_i hkey
      obtain rfl := Option.some.inj h
      exact .usedKey hi hb hkey
  · rename_i x e b hi hb
    obtain rfl := Option.some.inj h
    exact .storeTail hi hb
  · rename_i x e nb hi
    obtain rfl := Option.some.inj h
    exact .place hi
  · rename_i x e b hi hb
    obtain rfl := Option.some.inj h
    exact .rewind hi hb
  · rename_i x e hi
    obtain rfl := Option.some.inj h
    exact .clear hi
  · cases h

inductive Step (width : ℕ) (s : State κ δ) : Event κ δ → State κ δ → Prop
  | begin {x : δ} (hp : s.queue.producer = .idle) (hi : s.insertion = .idle)
      (hend : s.queue.tailIndex % blockSize = 0)
      (hroom : circularLessThan width s.queue.headIndex (s.queue.tailIndex + blockSize) = true) :
      Step width s (.enqueue x) { s with insertion := .testing x }
  | full {x : δ} (hp : s.queue.producer = .idle) (hi : s.insertion = .idle)
      (hend : s.queue.tailIndex % blockSize = 0)
      (hfull : circularLessThan width s.queue.headIndex (s.queue.tailIndex + blockSize) = false) :
      Step width s (.enqueue x) s.refuse
  | inside {x : δ} (hp : s.queue.producer = .idle) (hi : s.insertion = .idle)
      (hin : s.queue.tailIndex % blockSize ≠ 0) :
      Step width s (.enqueue x) { s with queue := { s.queue with producer := .constructing x } }
  | insert {t : State κ δ} (h : Insert s t) : Step width s .insert t
  | grow {x : δ} (hi : s.insertion = .growing x)
      (hfits : blockSize * s.index.nextBlockIndexCapacity ≤ 2 ^ width) :
      Step width s (.newBlockIndex true)
        { s with index := s.index.newBlockIndex, insertion := .grown x }
  | noMemory {x : δ} (hi : s.insertion = .growing x) : Step width s (.newBlockIndex false) s.refuse
  | noBlock {x : δ} {e : ℕ} (hi : s.insertion = .inserted x e) :
      Step width s (.requisition none) { s with insertion := .rewinding x e }
  | requisition {x : δ} {e nb : ℕ} (hi : s.insertion = .inserted x e)
      (hfree : s.owned nb = false) : Step width s (.requisition (some nb)) { s with
        owned := Function.update s.owned nb true
        block := Function.update s.block nb
          { s.block nb with elementsCompletelyDequeued := 0 }
        insertion := .placing x e nb }
  | construct {x : δ} {tb : ℕ} (hp : s.queue.producer = .constructing x)
      (htb : s.tailBlock = some tb) : Step width s .construct { s with
        block := Function.update s.block tb
          { s.block tb with
            elements := Function.update (s.block tb).elements
              (s.queue.tailIndex % blockSize) (some x) }
        queue := { s.queue with
          slots := Function.update s.queue.slots s.queue.tailIndex (some x)
          producer := .publishing x } }
  | noTail {x : δ} (hp : s.queue.producer = .constructing x) (htb : s.tailBlock = none) :
      Step width s .construct s.fail
  | publish {q : ProducerQueue.State κ δ}
      (hq : ProducerQueue.step width s.queue .publish = some q) :
      Step width s .publish { s with queue := q }
  | leaveEnqueue {q : ProducerQueue.State κ δ}
      (hq : ProducerQueue.step width s.queue .leaveEnqueue = some q) :
      Step width s .leaveEnqueue { s with queue := q }
  | tryDequeue {c : κ} {q : ProducerQueue.State κ δ}
      (hq : ProducerQueue.step width s.queue (.tryDequeue c) = some q) :
      Step width s (.tryDequeue c) { s with queue := q }
  | advance {c : κ} {q : ProducerQueue.State κ δ} (hc : ∀ i, s.queue.consumer c ≠ .indexed i)
      (hq : ProducerQueue.step width s.queue (.advance c) = some q) :
      Step width s (.advance c) { s with queue := q }
  | lookup {c : κ} {t : State κ δ} (h : Lookup width s c t) : Step width s (.lookup c) t
  | leave {c : κ} {q : ProducerQueue.State κ δ} (hr : s.reader c = .idle)
      (hq : ProducerQueue.step width s.queue (.leave c) = some q) :
      Step width s (.leave c) { s with queue := q }

theorem step_cases {e : Event κ δ} (h : step width s e = some t) :
    s.fault = false ∧ Step width s e t := by
  rw [step.eq_def] at h
  split at h
  · cases h
  · rename_i hfault
    refine ⟨Bool.eq_false_of_not_eq_true hfault, ?_⟩
    cases e with
    | enqueue x =>
      dsimp only at h
      split at h
      · rename_i hp hi
        obtain rfl := Option.some.inj h
        split
        · rename_i hend
          split
          · rename_i hroom
            exact .begin hp hi hend hroom
          · rename_i hfull
            exact .full hp hi hend (Bool.eq_false_of_not_eq_true hfull)
        · rename_i hin
          exact .inside hp hi hin
      · cases h
    | insert => exact .insert (insert_cases h)
    | newBlockIndex allocated =>
      dsimp only at h
      split at h
      · rename_i x hi
        cases allocated with
        | true =>
          rw [if_pos rfl] at h
          split at h
          · rename_i hfits
            obtain rfl := Option.some.inj h
            exact .grow hi hfits
          · cases h
        | false =>
          obtain rfl := Option.some.inj h
          exact .noMemory hi
      · cases h
    | requisition newBlock =>
      dsimp only at h
      split at h
      · rename_i x e hi
        obtain rfl := Option.some.inj h
        exact .noBlock hi
      · rename_i x e nb hi
        split at h
        · cases h
        · rename_i hfree
          obtain rfl := Option.some.inj h
          exact .requisition hi (Bool.eq_false_of_not_eq_true hfree)
      · cases h
    | construct =>
      dsimp only at h
      split at h
      · rename_i x tb hp htb
        obtain rfl := Option.some.inj h
        exact .construct hp htb
      · rename_i x hp htb
        obtain rfl := Option.some.inj h
        exact .noTail hp htb
      · cases h
    | publish =>
      obtain ⟨q, hq, rfl⟩ := Option.map_eq_some_iff.mp h
      exact .publish hq
    | leaveEnqueue =>
      obtain ⟨q, hq, rfl⟩ := Option.map_eq_some_iff.mp h
      exact .leaveEnqueue hq
    | tryDequeue c =>
      obtain ⟨q, hq, rfl⟩ := Option.map_eq_some_iff.mp h
      exact .tryDequeue hq
    | advance c =>
      dsimp only at h
      split at h
      · cases h
      · rename_i hc
        obtain ⟨q, hq, rfl⟩ := Option.map_eq_some_iff.mp h
        exact .advance (fun i hi => hc i hi) hq
    | lookup c => exact .lookup (lookup_cases h)
    | leave c =>
      dsimp only at h
      split at h
      · rename_i hr
        obtain ⟨q, hq, rfl⟩ := Option.map_eq_some_iff.mp h
        exact .leave hr hq
      · cases h

end Cases

end BlockQueue
end PyCtp
