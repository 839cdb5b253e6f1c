import PyCtp.LabelledRuns
import PyCtp.Tallies
import Mathlib.Logic.Function.Basic

/-!
# The pool of blocks of the queue

`requisition_block` and `add_block_to_free_list` of any number of threads: blocks of the initial
pool, then `FreeList`, a linked list without locks whose nodes count their references, then new
blocks. A step is one access to shared memory.
-/
namespace PyCtp
open LabelledRuns Tallies

namespace BlockPool

/-- `REFS_MASK` and `SHOULD_BE_ON_FREELIST`. -/
def refsMask : ℕ := 0x7FFFFFFF

def shouldBeOnFreeList : ℕ := 0x80000000

/-- The arithmetic of `freeListRefs`, of 32 bits. -/
def add32 (a b : ℕ) : ℕ := (a + b) % 2 ^ 32

def sub32 (a b : ℕ) : ℕ := (a + (2 ^ 32 - b)) % 2 ^ 32

/-- Where `add_knowing_refcount_is_zero` returns to: to `add`, or into the loop of `try_get`. -/
inductive Caller
  | add
  | tryGet (head : Option ℕ)

/-- A thread: outside; in `requisition_block` before the initial pool and in it; in `try_get`,
about to load the head, the references of the head, to count its own one, to load the next node, to
swap the head; with a node taken off the list; without one, giving back its reference; about to
create a block; returned. Then in `add`; and in `add_knowing_refcount_is_zero`, about to load the
head, to store the next node, the references, to swap the head, or to try again. -/
inductive Thread
  | idle
  | requisitioning
  | claiming
  | starting
  | loaded (head : ℕ)
  | counting (head refs : ℕ)
  | counted (head : ℕ)
  | swapping (head : ℕ) (next : Option ℕ)
  | taken (head : ℕ)
  | subtracting (head : ℕ)
  | releasing (prevHead : ℕ) (head : Option ℕ)
  | creating
  | returned (block : Option ℕ)
  | adding (node : ℕ)
  | knowing (node : ℕ) (caller : Caller)
  | linking (node : ℕ) (head : Option ℕ) (caller : Caller)
  | referring (node : ℕ) (head : Option ℕ) (caller : Caller)
  | inserting (node : ℕ) (head : Option ℕ) (caller : Caller)
  | retrying (node : ℕ) (head : Option ℕ) (caller : Caller)

/-- Blocks are numbers, first those of the initial pool, then those created. `out`: the blocks that
the callers have; no step reads it but the first one of `add`, whose caller has the block. -/
structure State (κ : Type*) where
  freeListHead : Option ℕ
  freeListNext : ℕ → Option ℕ
  freeListRefs : ℕ → ℕ
  initialBlockPoolIndex : ℕ
  initialBlockPoolSize : ℕ
  created : ℕ
  thread : κ → Thread
  out : ℕ → Bool
  fault : Bool

variable {κ : Type*}

def State.start (initialBlockPoolSize : ℕ) : State κ where
  freeListHead := none
  freeListNext _ := none
  freeListRefs _ := 0
  initialBlockPoolIndex := 0
  initialBlockPoolSize := initialBlockPoolSize
  created := 0
  thread _ := .idle
  out _ := false
  fault := false

/-- `create` depends on the memory. -/
inductive Event (κ : Type*)
  | requisitionBlock (c : κ)
  | addBlockToFreeList (c : κ) (block : ℕ)
  | advance (c : κ)
  | create (c : κ) (allocated : Bool)
  | leave (c : κ)

def Thread.loop : Option ℕ → Thread
  | some head => .loaded head
  | none => .creating

def Caller.resume : Caller → Thread
  | .add => .idle
  | .tryGet head => .loop head

section Steps
variable [DecidableEq κ]

namespace State

def goto (s : State κ) (c : κ) (k : Thread) : State κ :=
  { s with thread := Function.update s.thread c k }

def setRefs (s : State κ) (node refs : ℕ) : State κ :=
  { s with freeListRefs := Function.update s.freeListRefs node refs }

def give (s : State κ) (c : κ) (block : ℕ) : State κ :=
  { s.goto c (.returned (some block)) with out := Function.update s.out block true }

def advance (s : State κ) (c : κ) : Option (State κ) :=
  match s.thread c with
  | .requisitioning =>
    some (s.goto c (if s.initialBlockPoolIndex ≥ s.initialBlockPoolSize then .starting
      else .claiming))
  | .claiming =>
    let index := s.initialBlockPoolIndex
    let t := { s with initialBlockPoolIndex := index + 1 }
    some (if index < s.initialBlockPoolSize then t.give c index else t.goto c .starting)
  | .starting => some (s.goto c (.loop s.freeListHead))
  | .loaded head =>
    let refs := s.freeListRefs head
    some (s.goto c (if refs &&& refsMask = 0 then .starting else .counting head refs))
  | .counting head refs =>
    some (if s.freeListRefs head = refs then
      (s.setRefs head (add32 refs 1)).goto c (.counted head)
    else s.goto c .starting)
  | .counted head => some (s.goto c (.swapping head (s.freeListNext head)))
  | .swapping head next =>
    some (if s.freeListHead = some head then
      { s.goto c (.taken head) with freeListHead := next }
    else s.goto c (.releasing head s.freeListHead))
  | .taken head =>
    some (if s.freeListRefs head &&& shouldBeOnFreeList = 0 then s.goto c (.subtracting head)
    else { s with fault := true })
  | .subtracting head =>
    some ((s.setRefs head (sub32 (s.freeListRefs head) 2)).give c head)
  | .releasing prevHead head =>
    let refs := s.freeListRefs prevHead
    some ((s.setRefs prevHead (sub32 refs 1)).goto c
      (if refs = shouldBeOnFreeList + 1 then .knowing prevHead (.tryGet head) else .loop head))
  | .adding node =>
    let refs := s.freeListRefs node
    some ((s.setRefs node (add32 refs shouldBeOnFreeList)).goto c
      (if refs = 0 then .knowing node .add else .idle))
  | .knowing node caller => some (s.goto c (.linking node s.freeListHead caller))
  | .linking node head caller =>
    some { s.goto c (.referring node head caller) with
      freeListNext := Function.update s.freeListNext node head }
  | .referring node head caller =>
    some ((s.setRefs node 1).goto c (.inserting node head caller))
  | .inserting node head caller =>
    some (if s.freeListHead = head then
      { s.goto c caller.resume with freeListHead := some node }
    else s.goto c (.retrying node s.freeListHead caller))
  | .retrying node head caller =>
    let refs := s.freeListRefs node
    some ((s.setRefs node (add32 refs (shouldBeOnFreeList - 1))).goto c
      (if refs = 1 then .linking node head caller else caller.resume))
  | .idle | .creating | .returned _ => none

end State

def step (s : State κ) (e : Event κ) : Option (State κ) :=
  if s.fault then none else
  match e with
  | .requisitionBlock c =>
    match s.thread c with
    | .idle => some (s.goto c .requisitioning)
    | _ => none
  | .addBlockToFreeList c block =>
    match s.thread c with
    | .idle =>
      if s.out block then
        some { s.goto c (.adding block) with out := Function.update s.out block false }
      else none
    | _ => none
  | .advance c => s.advance c
  | .create c allocated =>
    match s.thread c with
    | .creating =>
      some (if allocated then
        { s with created := s.created + 1 }.give c (s.initialBlockPoolSize + s.created)
      else s.goto c (.returned none))
    | _ => none
  | .leave c =>
    match s.thread c with
    | .returned _ => some (s.goto c .idle)
    | _ => none

end Steps

def Event.thread : Event κ → κ
  | .requisitionBlock c | .addBlockToFreeList c _ | .advance c | .create c _ | .leave c => c

theorem advance_frame [DecidableEq κ] {s t : State κ} {c i : κ} (h : s.advance c = some t)
    (hi : i ≠ c) : t.thread i = s.thread i := by
  have hgoto : ∀ k, Function.update s.thread c k i = s.thread i :=
    fun k => Function.update_of_ne hi _ _
  rw [State.advance] at h
  split at h
  all_goals first
    | (obtain rfl := Option.some.inj h
       first
       | exact hgoto _
       | (split <;> first | exact hgoto _ | rfl))
    | cases h

theorem step_frame [DecidableEq κ] {s t : State κ} {e : Event κ} {i : κ} (he : step s e = some t)
    (hi : i ≠ e.thread) : t.thread i = s.thread i := by
  rw [step.eq_def] at he
  split at he
  · cases he
  · cases e with
    | advance c => exact advance_frame he hi
    | requisitionBlock c =>
      dsimp only at he
      split at he
      · obtain rfl := Option.some.inj he
        exact Function.update_of_ne hi _ _
      · cases he
    | addBlockToFreeList c block =>
      dsimp only at he
      split at he
      · split at he
        · obtain rfl := Option.some.inj he
          exact Function.update_of_ne hi _ _
        · cases he
      · cases he
    | create c allocated =>
      dsimp only at he
      split at he
      · obtain rfl := Option.some.inj he
        split <;> exact Function.update_of_ne hi _ _
      · cases he
    | leave c =>
      dsimp only at he
      split at he
      · obtain rfl := Option.some.inj he
        exact Function.update_of_ne hi _ _
      · cases he

end BlockPool
end PyCtp
