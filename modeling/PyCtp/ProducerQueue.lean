import PyCtp.LabelledRuns
import PyCtp.Tallies
import Mathlib.Algebra.Order.Ring.Int
import Mathlib.Tactic.Linarith

/-!
# The elements of one producer

The part of `moodycamel::ConcurrentQueue` that belongs to one producer thread:
`ImplicitProducer::enqueue`, and `try_dequeue` of any number of consumers where no other
producer has elements. A step is one access to a shared counter or slot. A consumer first
takes a ticket, then finds out whether the ticket is good for an element, and only then takes
the next index. The counters are kept without their overflow; the tests see them modulo the
width of `index_t`.
-/
namespace PyCtp
open LabelledRuns Tallies

namespace ProducerQueue

/-- `circular_less_than` on counters of the given width. -/
def circularLessThan (width : ℕ) (a b : ℤ) : Bool := (a - b) % 2 ^ width > 2 ^ (width - 1)

/-- `BLOCK_SIZE`. -/
def blockSize : ℕ := 32

section Circular
variable {width : ℕ} {a b : ℤ}

theorem two_pow_eq (hwidth : 0 < width) : (2 : ℤ) ^ width = 2 * 2 ^ (width - 1) := by
  rw [← pow_succ', Nat.sub_add_cancel hwidth]

theorem lt_of_circularLessThan (hwidth : 0 < width) (hle : a ≤ b + 2 ^ (width - 1))
    (h : circularLessThan width a b = true) : a < b := by
  have htest : (a - b) % 2 ^ width > 2 ^ (width - 1) := of_decide_eq_true h
  by_contra hba
  have hhalf : (0 : ℤ) < 2 ^ (width - 1) := by positivity
  rw [two_pow_eq hwidth, Int.emod_eq_of_lt (by omega) (by omega)] at htest
  omega

theorem circularLessThan_of_lt (hwidth : 0 < width) (hlt : a < b)
    (hle : b < a + 2 ^ (width - 1)) : circularLessThan width a b = true := by
  apply decide_eq_true
  have hmod : (a - b) % 2 ^ width = a - b + 2 ^ width := by
    rw [← Int.add_emod_right, Int.emod_eq_of_lt]
    · rw [two_pow_eq hwidth]
      omega
    · omega
  rw [hmod, two_pow_eq hwidth]
  omega

theorem lt_half_of_circularLessThan (hwidth : 0 < width) (hlt : a < b)
    (hle : b ≤ a + 2 ^ width) (h : circularLessThan width a b = true) :
    b < a + 2 ^ (width - 1) := by
  have htest : (a - b) % 2 ^ width > 2 ^ (width - 1) := of_decide_eq_true h
  rw [← Int.add_emod_right, two_pow_eq hwidth] at htest
  rw [two_pow_eq hwidth] at hle
  rw [Int.emod_eq_of_lt (by omega) (by omega)] at htest
  omega

end Circular

/-- The producer: outside `enqueue`, about to construct the element in its slot, about to store
the new tail, or returned. -/
inductive Producer (δ : Type*)
  | idle
  | constructing (element : δ)
  | publishing (element : δ)
  | returned (ok : Bool)

/-- A consumer: outside `try_dequeue`; in `size_approx` with the tail; then in `dequeue`, at
its start, with the tail, with the tail and the overcommit, past the first test; with a ticket;
found good or not; with the index of its element; or returned. -/
inductive Consumer (δ : Type*)
  | idle
  | sizing (tail : ℕ)
  | starting
  | loadedTail (tail : ℕ)
  | loadedOvercommit (tail overcommit : ℕ)
  | entering (overcommit : ℕ)
  | claimed (overcommit myDequeueCount : ℕ)
  | committed
  | overcommitted
  | indexed (index : ℕ)
  | returned (item : Option δ)

/-- The counters, the slots by index, the threads; then the elements enqueued, the ones received
with their index, and whether a slot was read that held no element. -/
structure State (κ δ : Type*) where
  tailIndex : ℕ
  headIndex : ℕ
  dequeueOptimisticCount : ℕ
  dequeueOvercommit : ℕ
  slots : ℕ → Option δ
  producer : Producer δ
  consumer : κ → Consumer δ
  enqueued : List δ
  received : List (ℕ × δ)
  broken : Bool

variable {κ δ : Type*}

def State.start : State κ δ where
  tailIndex := 0
  headIndex := 0
  dequeueOptimisticCount := 0
  dequeueOvercommit := 0
  slots _ := none
  producer := .idle
  consumer _ := .idle
  enqueued := []
  received := []
  broken := false

/-- `allocated` says whether a new block and its index entry could be had where they are needed. -/
inductive Event (κ δ : Type*)
  | enqueue (element : δ) (allocated : Bool)
  | construct
  | publish
  | leaveEnqueue
  | tryDequeue (c : κ)
  | advance (c : κ)
  | leave (c : κ)

section Steps
variable [DecidableEq κ] (width : ℕ)

namespace State

def goto (s : State κ δ) (c : κ) (k : Consumer δ) : State κ δ :=
  { s with consumer := Function.update s.consumer c k }

/-- At the end of a block there must be room for the next one, and memory. -/
def refused (s : State κ δ) (allocated : Bool) : Bool :=
  s.tailIndex % blockSize = 0 &&
    (!circularLessThan width s.headIndex (s.tailIndex + blockSize) || !allocated)

def advance (s : State κ δ) (c : κ) : Option (State κ δ) :=
  match s.consumer c with
  | .sizing tail =>
    some (s.goto c (if circularLessThan width s.headIndex tail then .starting else .returned none))
  | .starting => some (s.goto c (.loadedTail s.tailIndex))
  | .loadedTail tail => some (s.goto c (.loadedOvercommit tail s.dequeueOvercommit))
  | .loadedOvercommit tail overcommit =>
    some (s.goto c
      (if circularLessThan width (s.dequeueOptimisticCount - overcommit) tail then
        .entering overcommit
      else .returned none))
  | .entering overcommit =>
    some { s.goto c (.claimed overcommit s.dequeueOptimisticCount) with
      dequeueOptimisticCount := s.dequeueOptimisticCount + 1 }
  | .claimed overcommit myDequeueCount =>
    some (s.goto c
      (if circularLessThan width (myDequeueCount - overcommit) s.tailIndex then .committed
      else .overcommitted))
  | .committed =>
    some { s.goto c (.indexed s.headIndex) with headIndex := s.headIndex + 1 }
  | .overcommitted =>
    some { s.goto c (.returned none) with dequeueOvercommit := s.dequeueOvercommit + 1 }
  | .indexed index =>
    match s.slots index with
    | some element =>
      some { s.goto c (.returned (some element)) with
        slots := Function.update s.slots index none
        received := s.received ++ [(index, element)] }
    | none => some { s with broken := true }
  | .idle | .returned _ => none

end State

def step (s : State κ δ) : Event κ δ → Option (State κ δ)
  | .enqueue element allocated =>
    match s.producer with
    | .idle =>
      some { s with
        producer := if s.refused width allocated then .returned false else .constructing element }
    | _ => none
  | .construct =>
    match s.producer with
    | .constructing element =>
      some { s with
        slots := Function.update s.slots s.tailIndex (some element)
        producer := .publishing element }
    | _ => none
  | .publish =>
    match s.producer with
    | .publishing element =>
      some { s with
        tailIndex := s.tailIndex + 1
        producer := .returned true
        enqueued := s.enqueued ++ [element] }
    | _ => none
  | .leaveEnqueue =>
    match s.producer with
    | .returned _ => some { s with producer := .idle }
    | _ => none
  | .tryDequeue c =>
    match s.consumer c with
    | .idle => some (s.goto c (.sizing s.tailIndex))
    | _ => none
  | .advance c => s.advance width c
  | .leave c =>
    match s.consumer c with
    | .returned _ => some (s.goto c .idle)
    | _ => none

end Steps

namespace Consumer

/-- The consumer holds a ticket not found good or not, one found good but without an index yet,
one found not good but not given back yet. -/
def claims : Consumer δ → ℕ
  | .claimed _ _ => 1
  | _ => 0

def commits : Consumer δ → ℕ
  | .committed => 1
  | _ => 0

def overcommits : Consumer δ → ℕ
  | .overcommitted => 1
  | _ => 0

/-- The consumer holds an open ticket below the given one. -/
def claimsBelow (n : ℕ) : Consumer δ → ℕ
  | .claimed _ d => if d < n then 1 else 0
  | _ => 0

def loaded : Consumer δ → Option ℕ
  | .loadedOvercommit _ o | .entering o | .claimed o _ => some o
  | _ => none

def taken : Consumer δ → ℕ
  | .indexed _ | .returned (some _) => 1
  | _ => 0

theorem taken_le (k : Consumer δ) : k.taken ≤ 1 := by
  cases k with
  | returned item => cases item <;> simp [taken]
  | _ => simp [taken]

def items : Consumer δ → List δ
  | .returned (some x) => [x]
  | _ => []

theorem items_of_taken {k : Consumer δ} (h : k.taken = 0) : k.items = [] := by
  cases k with
  | returned item =>
    cases item with
    | none => rfl
    | some x => cases h
  | _ => rfl

def Free : Consumer δ → Prop
  | .claimed _ _ | .committed | .overcommitted | .indexed _ => False
  | _ => True

end Consumer

section Advance
variable [DecidableEq κ] {width : ℕ} {s t : State κ δ} {c : κ}

inductive Advance (width : ℕ) (s : State κ δ) (c : κ) : State κ δ → Prop
  | goto {k : Consumer δ} (hfrom : (s.consumer c).Free) (hto : k.Free)
      (htaken : (s.consumer c).taken = 0 ∧ k.taken = 0) (hinside : k ≠ .idle)
      (hloaded : ∀ o, k.loaded = some o →
        (s.consumer c).loaded = some o ∨ o = s.dequeueOvercommit) :
    Advance width s c (s.goto c k)
  | claim {o : ℕ} (hc : s.consumer c = .entering o) :
    Advance width s c { s.goto c (.claimed o s.dequeueOptimisticCount) with
      dequeueOptimisticCount := s.dequeueOptimisticCount + 1 }
  | commit {o d : ℕ} (hc : s.consumer c = .claimed o d)
      (hgood : circularLessThan width (d - o) s.tailIndex = true) :
    Advance width s c (s.goto c .committed)
  | overcommit {o d : ℕ} (hc : s.consumer c = .claimed o d) :
    Advance width s c (s.goto c .overcommitted)
  | index (hc : s.consumer c = .committed) :
    Advance width s c { s.goto c (.indexed s.headIndex) with headIndex := s.headIndex + 1 }
  | giveUp (hc : s.consumer c = .overcommitted) :
    Advance width s c { s.goto c (.returned none) with
      dequeueOvercommit := s.dequeueOvercommit + 1 }
  | receive {i : ℕ} {x : δ} (hc : s.consumer c = .indexed i) (hx : s.slots i = some x) :
    Advance width s c { s.goto c (.returned (some x)) with
      slots := Function.update s.slots i none
      received := s.received ++ [(i, x)] }
  | fault {i : ℕ} (hc : s.consumer c = .indexed i) (hnone : s.slots i = none) :
    Advance width s c { s with broken := true }

theorem advance_cases (h : s.advance width c = some t) : Advance width s c t := by
  rw [State.advance] at h
  cases hc : s.consumer c with
  | sizing tail =>
    rw [hc] at h
    obtain rfl := Option.some.inj h
    apply Advance.goto
    · rw [hc]
      trivial
    · split <;> trivial
    · exact ⟨by rw [hc]; rfl, by split <;> rfl⟩
    · split <;> simp
    · split <;> exact fun o ho => by cases ho
  | starting =>
    rw [hc] at h
    obtain rfl := Option.some.inj h
    apply Advance.goto
    · rw [hc]
      trivial
    · trivial
    · exact ⟨by rw [hc]; rfl, rfl⟩
    · simp
    · exact fun o ho => by cases ho
  | loadedTail tail =>
    rw [hc] at h
    obtain rfl := Option.some.inj h
    apply Advance.goto
    · rw [hc]
      trivial
    · trivial
    · exact ⟨by rw [hc]; rfl, rfl⟩
    · simp
    · exact fun o ho => .inr (Option.some.inj ho).symm
  | loadedOvercommit tail overcommit =>
    rw [hc] at h
    obtain rfl := Option.some.inj h
    apply Advance.goto
    · rw [hc]
      trivial
    · split <;> trivial
    · exact ⟨by rw [hc]; rfl, by split <;> rfl⟩
    · split <;> simp
    · rw [hc]
      split
      · exact fun o ho => .inl ho
      · exact fun o ho => by cases ho
  | entering overcommit =>
    rw [hc] at h
    obtain rfl := Option.some.inj h
    exact .claim hc
  | claimed overcommit myDequeueCount =>
    rw [hc] at h
    dsimp only at h
    obtain rfl := Option.some.inj h
    split
    · rename_i hgood
      exact .commit hc hgood
    · exact .overcommit hc
  | committed =>
    rw [hc] at h
    obtain rfl := Option.some.inj h
    exact .index hc
  | overcommitted =>
    rw [hc] at h
    obtain rfl := Option.some.inj h
    exact .giveUp hc
  | indexed index =>
    rw [hc] at h
    dsimp only at h
    split at h
    · rename_i element hx
      obtain rfl := Option.some.inj h
      exact .receive hc hx
    · rename_i hnone
      obtain rfl := Option.some.inj h
      exact .fault hc hnone
  | idle =>
    rw [hc] at h
    cases h
  | returned item =>
    rw [hc] at h
    cases h

theorem Advance.frame (h : Advance width s c t) :
    t.headIndex + (s.consumer c).taken = s.headIndex + (t.consumer c).taken ∧
      (∀ j, j ≠ c → t.consumer j = s.consumer j) ∧ t.consumer c ≠ .idle ∧
      t.tailIndex = s.tailIndex ∧ t.enqueued = s.enqueued ∧ t.producer = s.producer := by
  have hself : ∀ k, (s.goto c k).consumer c = k := fun k => by
    simp only [State.goto, Function.update_self]
  have hne : ∀ k j, j ≠ c → (s.goto c k).consumer j = s.consumer j := fun k j hj => by
    simp only [State.goto, Function.update_of_ne hj]
  cases h with
  | goto hfrom hto htaken hinside =>
    rw [hself, htaken.1, htaken.2]
    exact ⟨rfl, hne _, hinside, rfl, rfl, rfl⟩
  | fault hc => exact ⟨rfl, fun _ _ => rfl, by simp [hc], rfl, rfl, rfl⟩
  | commit hc =>
    rw [hself, hc]
    exact ⟨rfl, hne _, by simp, rfl, rfl, rfl⟩
  | overcommit hc =>
    rw [hself, hc]
    exact ⟨rfl, hne _, by simp, rfl, rfl, rfl⟩
  | index hc =>
    dsimp only
    rw [hself, hc]
    exact ⟨rfl, hne _, by simp, rfl, rfl, rfl⟩
  | claim hc =>
    dsimp only
    rw [hself, hc]
    exact ⟨rfl, hne _, by simp, rfl, rfl, rfl⟩
  | giveUp hc =>
    dsimp only
    rw [hself, hc]
    exact ⟨rfl, hne _, by simp, rfl, rfl, rfl⟩
  | receive hc =>
    dsimp only
    rw [hself, hc]
    exact ⟨rfl, hne _, by simp, rfl, rfl, rfl⟩

theorem Advance.items (h : Advance width s c t) : (s.consumer c).items = [] ∧
    t.received.map Prod.snd = s.received.map Prod.snd ++ (t.consumer c).items := by
  have hself : ∀ k, (s.goto c k).consumer c = k := fun k => by
    simp only [State.goto, Function.update_self]
  cases h with
  | goto hfrom hto htaken =>
    rw [hself, Consumer.items_of_taken htaken.1, Consumer.items_of_taken htaken.2]
    exact ⟨rfl, (List.append_nil _).symm⟩
  | fault hc =>
    dsimp only
    rw [hc]
    exact ⟨rfl, (List.append_nil _).symm⟩
  | receive hc =>
    dsimp only
    rw [hself, hc]
    exact ⟨rfl, List.map_append⟩
  | claim hc =>
    dsimp only
    rw [hself, hc]
    exact ⟨rfl, (List.append_nil _).symm⟩
  | commit hc =>
    rw [hself, hc]
    exact ⟨rfl, (List.append_nil _).symm⟩
  | overcommit hc =>
    rw [hself, hc]
    exact ⟨rfl, (List.append_nil _).symm⟩
  | index hc =>
    dsimp only
    rw [hself, hc]
    exact ⟨rfl, (List.append_nil _).symm⟩
  | giveUp hc =>
    dsimp only
    rw [hself, hc]
    exact ⟨rfl, (List.append_nil _).symm⟩

theorem exists_advance (hidle : s.consumer c ≠ .idle)
    (hreturned : ∀ item, s.consumer c ≠ .returned item) : ∃ t, s.advance width c = some t := by
  rw [State.advance]
  cases hc : s.consumer c with
  | idle => exact absurd hc hidle
  | returned item => exact absurd hc (hreturned item)
  | indexed index =>
    dsimp only
    split <;> exact ⟨_, rfl⟩
  | _ => exact ⟨_, rfl⟩

inductive Step (width : ℕ) (s : State κ δ) : Event κ δ → State κ δ → Prop
  | enqueue {x : δ} {allocated : Bool} (hp : s.producer = .idle) :
    Step width s (.enqueue x allocated) { s with
      producer := if s.refused width allocated then .returned false else .constructing x }
  | construct {x : δ} (hp : s.producer = .constructing x) :
    Step width s .construct { s with
      slots := Function.update s.slots s.tailIndex (some x)
      producer := .publishing x }
  | publish {x : δ} (hp : s.producer = .publishing x) :
    Step width s .publish { s with
      tailIndex := s.tailIndex + 1
      producer := .returned true
      enqueued := s.enqueued ++ [x] }
  | leaveEnqueue {ok : Bool} (hp : s.producer = .returned ok) :
    Step width s .leaveEnqueue { s with producer := .idle }
  | tryDequeue {c : κ} (hc : s.consumer c = .idle) :
    Step width s (.tryDequeue c) (s.goto c (.sizing s.tailIndex))
  | advance {c : κ} {t : State κ δ} (ha : Advance width s c t) : Step width s (.advance c) t
  | leave {c : κ} {item : Option δ} (hc : s.consumer c = .returned item) :
    Step width s (.leave c) (s.goto c .idle)

theorem step_cases {e : Event κ δ} (h : step width s e = some t) : Step width s e t := by
  cases e with
  | advance c => exact .advance (advance_cases h)
  | _ =>
    rw [step] at h
    split at h
    · rename_i hc
      obtain rfl := Option.some.inj h
      constructor
      exact hc
    · cases h

end Advance

end ProducerQueue
end PyCtp
