import PyCtp.LabelledRuns
import PyCtp.Tallies

/-!
# The semaphore of the recorder's queue

`LightweightSemaphore`: a counter that threads change without waiting while it is positive,
over a semaphore of the kernel for those that have to sleep. A step is one access to the
counter or one call of the kernel semaphore. A wait with a timeout takes its decrement back
when it gives up. The counter is kept without its overflow; `InRange` says that there is none.
-/
namespace PyCtp
open LabelledRuns Tallies

namespace LightweightSemaphore

/-- Where a thread is in `wait`: in the loop of `tryWait` with the count it loaded; in the loop
of `waitWithPartialSpinning` with the rounds that are left, before or after the load; waiting
for the kernel semaphore; after a timeout, before or after the load; or returned. -/
inductive Waiter
  | idle
  | trying (oldCount : ℤ)
  | spin (rounds : ℕ)
  | spinning (rounds : ℕ) (oldCount : ℤ)
  | sleeping
  | undo
  | undoing (oldCount : ℤ)
  | returned (acquired : Bool)
  deriving DecidableEq

/-- The thread has decremented the counter and neither got a permit for it nor undone it. -/
def Waiter.waits : Waiter → ℕ
  | .sleeping | .undo | .undoing _ => 1
  | _ => 0

def Waiter.granted : Waiter → ℕ
  | .returned true => 1
  | _ => 0

/-- No timeout has expired for the thread. -/
def Waiter.Direct : Waiter → Prop
  | .undo | .undoing _ | .returned false => False
  | _ => True

/-- The rounds of the spin loop. -/
def spinRounds : ℕ := 10000

/-- The counter, the kernel semaphore, the threads inside `wait` and whether they set a
timeout, and for each thread inside `signal` what it is about to release; then the permits
signalled and acquired so far. -/
structure State (π κ : Type*) where
  mCount : ℤ
  mSema : ℕ
  waiter : κ → Waiter
  timed : κ → Bool
  toRelease : π → ℕ
  signalled : ℕ
  acquired : ℕ

variable {π κ : Type*}

def State.start (initialCount : ℕ) : State π κ where
  mCount := initialCount
  mSema := 0
  waiter _ := .idle
  timed _ := false
  toRelease _ := 0
  signalled := 0
  acquired := 0

/-- A thread enters `wait`, takes its next step, or goes on after `wait` returned; a thread
adds permits, or releases the kernel semaphore. A step is `weak` where a
`compare_exchange_weak` fails without need, or where a timeout expires. -/
inductive Event (π κ : Type*)
  | wait (c : κ) (timed : Bool)
  | advance (c : κ) (weak : Bool)
  | leave (c : κ)
  | signal (p : π) (count : ℕ)
  | release (p : π)

section Steps
variable [DecidableEq π] [DecidableEq κ]

namespace State
variable (s : State π κ) (c : κ)

def goto (w : Waiter) : State π κ := { s with waiter := Function.update s.waiter c w }

def take : State π κ :=
  { s with
    mCount := s.mCount - 1
    waiter := Function.update s.waiter c (.returned true)
    acquired := s.acquired + 1 }

def wake : State π κ :=
  { s with
    mSema := s.mSema - 1
    waiter := Function.update s.waiter c (.returned true)
    acquired := s.acquired + 1 }

def sleep : State π κ :=
  { s with
    mCount := s.mCount - 1
    waiter := Function.update s.waiter c .sleeping }

def giveUp : State π κ :=
  { s with
    mCount := s.mCount + 1
    waiter := Function.update s.waiter c (.returned false) }

def advance (weak : Bool) : Option (State π κ) :=
  match s.waiter c with
  | .trying oldCount =>
    if oldCount > 0 then
      if s.mCount = oldCount ∧ weak = false then some (s.take c)
      else some (s.goto c (.trying s.mCount))
    else some (s.goto c (.spin spinRounds))
  | .spin 0 =>
    if s.mCount > 0 then some (s.take c)
    else some (s.sleep c)
  | .spin (rounds + 1) => some (s.goto c (.spinning rounds s.mCount))
  | .spinning rounds oldCount =>
    if oldCount > 0 ∧ s.mCount = oldCount then some (s.take c)
    else some (s.goto c (.spin rounds))
  | .sleeping =>
    if weak then if s.timed c then some (s.goto c .undo) else none
    else if s.mSema > 0 then some (s.wake c)
    else none
  | .undo => some (s.goto c (.undoing s.mCount))
  | .undoing oldCount =>
    if oldCount ≥ 0 then
      if s.mSema > 0 then some (s.wake c) else some (s.goto c .undo)
    else if s.mCount = oldCount then some (s.giveUp c)
    else some (s.goto c .undo)
  | .idle | .returned _ => none

end State

def step (s : State π κ) : Event π κ → Option (State π κ)
  | .wait c timed =>
    if s.waiter c = .idle then
      some { s.goto c (.trying s.mCount) with timed := Function.update s.timed c timed }
    else none
  | .advance c weak => s.advance c weak
  | .leave c =>
    match s.waiter c with
    | .returned _ => some (s.goto c .idle)
    | _ => none
  | .signal p count =>
    if s.toRelease p = 0 then
      some { s with
        mCount := s.mCount + count
        toRelease := Function.update s.toRelease p (min (-s.mCount).toNat count)
        signalled := s.signalled + count }
    else none
  | .release p =>
    if s.toRelease p > 0 then
      some { s with
        mSema := s.mSema + s.toRelease p
        toRelease := Function.update s.toRelease p 0 }
    else none

end Steps

/-- The accounts of a semaphore: its counters, the threads that wait for the kernel semaphore or
undo their decrement, what is about to be released, the threads that have returned with a
permit, and all permits signalled and acquired. -/
@[ext] structure Books where
  mCount : ℤ
  mSema : ℕ
  waiting : ℕ
  pending : ℕ
  granted : ℕ
  signalled : ℕ
  acquired : ℕ

inductive Move (b : Books) : Books → Prop
  | quiet : Move b b
  | take (hcount : 0 < b.mCount) : Move b { b with
      mCount := b.mCount - 1, granted := b.granted + 1, acquired := b.acquired + 1 }
  | sleep (hcount : b.mCount ≤ 0) : Move b { b with
      mCount := b.mCount - 1, waiting := b.waiting + 1 }
  | wake (hsema : 0 < b.mSema) (hwaiting : 0 < b.waiting) : Move b { b with
      mSema := b.mSema - 1, waiting := b.waiting - 1
      granted := b.granted + 1, acquired := b.acquired + 1 }
  | undo (hcount : b.mCount < 0) (hwaiting : 0 < b.waiting) : Move b { b with
      mCount := b.mCount + 1, waiting := b.waiting - 1 }
  | leave (hgranted : 0 < b.granted) : Move b { b with granted := b.granted - 1 }
  | signal (n : ℕ) : Move b { b with
      mCount := b.mCount + n, pending := b.pending + min (-b.mCount).toNat n
      signalled := b.signalled + n }
  | release (n : ℕ) (hn : n ≤ b.pending) : Move b { b with
      mSema := b.mSema + n, pending := b.pending - n }

theorem Move.signalled_le {b b' : Books} (h : Move b b') : b.signalled ≤ b'.signalled := by
  cases h with
  | signal n => exact Nat.le_add_right _ n
  | _ => exact le_rfl

/-- Every permit is on the counter, acquired, or owed to a thread that waits; and every thread
that waits has its permit in the kernel semaphore or about to be there, or is one of those that
a negative counter counts. -/
structure Balanced (initialCount : ℕ) (b : Books) : Prop where
  permits : b.mCount + b.acquired + b.waiting = initialCount + b.signalled
  kernel : b.mSema + b.pending + (-b.mCount).toNat = b.waiting

theorem Balanced.move {initialCount : ℕ} {b b' : Books} (h : Balanced initialCount b)
    (hm : Move b b') : Balanced initialCount b' := by
  obtain ⟨hpermits, hkernel⟩ := h
  cases hm with
  | quiet => exact ⟨hpermits, hkernel⟩
  | take hcount => constructor <;> dsimp only <;> omega
  | sleep hcount => constructor <;> dsimp only <;> omega
  | wake hsema hwaiting => constructor <;> dsimp only <;> omega
  | undo hcount hwaiting => constructor <;> dsimp only <;> omega
  | leave => exact ⟨hpermits, hkernel⟩
  | signal n => constructor <;> dsimp only <;> omega
  | release n hn => constructor <;> dsimp only <;> omega

variable [Fintype π] [Fintype κ]

def State.books (s : State π κ) : Books where
  mCount := s.mCount
  mSema := s.mSema
  waiting := total Waiter.waits s.waiter
  pending := total id s.toRelease
  granted := total Waiter.granted s.waiter
  signalled := s.signalled
  acquired := s.acquired

/-- The counter is in the range of a signed integer of so many bits, and the kernel semaphore with
what is about to be released in that of an `int`. -/
def State.InRange (width : ℕ) (s : State π κ) : Prop :=
  -2 ^ (width - 1) < s.mCount ∧ s.mCount < 2 ^ (width - 1) ∧
    s.mSema + total id s.toRelease < 2 ^ 31

theorem Balanced.inRange {width initialCount : ℕ} {s : State π κ}
    (h : Balanced initialCount s.books) (hwidth : 32 ≤ width)
    (hthreads : Fintype.card κ < 2 ^ 31)
    (hcount : initialCount + s.signalled < 2 ^ (width - 1) + s.acquired) : s.InRange width := by
  obtain ⟨hpermits, hkernel⟩ := h
  simp only [State.books] at hpermits hkernel
  have hwaiting : total Waiter.waits s.waiter ≤ Fintype.card κ :=
    total_le_card fun c => by cases s.waiter c <;> simp [Waiter.waits]
  have hint : (2 : ℤ) ^ 31 ≤ 2 ^ (width - 1) := by
    exact_mod_cast Nat.pow_le_pow_right Nat.two_pos (by omega)
  have hcount' : ((initialCount + s.signalled : ℕ) : ℤ) < 2 ^ (width - 1) + s.acquired := by
    exact_mod_cast hcount
  refine ⟨?_, ?_, ?_⟩ <;> omega

theorem balanced_start (initialCount : ℕ) :
    Balanced initialCount (State.start initialCount : State π κ).books := by
  have hw : total Waiter.waits (fun _ : κ => Waiter.idle) = 0 := total_eq_zero fun _ => rfl
  have hp : total id (fun _ : π => 0) = 0 := total_eq_zero fun _ => rfl
  constructor
  · simp [State.books, State.start, hw]
  · simp [State.books, State.start, hw, hp]

/-- The steps of a thread inside `wait`, by what they do to the counters. -/
inductive Advance [DecidableEq κ] (s : State π κ) (c : κ) : State π κ → Prop
  | goto {w : Waiter} (hwaits : (s.waiter c).waits = w.waits)
      (hgranted : (s.waiter c).granted = w.granted)
      (hdirect : s.timed c = false → (s.waiter c).Direct → w.Direct) (hinside : w ≠ .idle) :
    Advance s c (s.goto c w)
  | take (hcount : 0 < s.mCount) (hwaits : (s.waiter c).waits = 0)
      (hgranted : (s.waiter c).granted = 0) : Advance s c (s.take c)
  | sleep (hcount : s.mCount ≤ 0) (hwaits : (s.waiter c).waits = 0)
      (hgranted : (s.waiter c).granted = 0) : Advance s c (s.sleep c)
  | wake (hsema : 0 < s.mSema) (hwaits : (s.waiter c).waits = 1)
      (hgranted : (s.waiter c).granted = 0) : Advance s c (s.wake c)
  | giveUp (hcount : s.mCount < 0) (hwaits : (s.waiter c).waits = 1)
      (hgranted : (s.waiter c).granted = 0) (hdirect : ¬(s.waiter c).Direct) :
    Advance s c (s.giveUp c)

section Moves
variable [DecidableEq κ] {s t : State π κ} {c : κ}

omit [Fintype π] [Fintype κ] in
theorem advance_cases {weak : Bool} (h : s.advance c weak = some t) : Advance s c t := by
  rw [State.advance] at h
  cases hc : s.waiter c with
  | trying oldCount =>
    rw [hc] at h
    dsimp only at h
    split at h
    · split at h
      · obtain rfl := Option.some.inj h
        exact .take (by omega) (by rw [hc]; rfl) (by rw [hc]; rfl)
      · obtain rfl := Option.some.inj h
        exact .goto (by rw [hc]; rfl) (by rw [hc]; rfl) (fun _ _ => trivial) (by simp)
    · obtain rfl := Option.some.inj h
      exact .goto (by rw [hc]; rfl) (by rw [hc]; rfl) (fun _ _ => trivial) (by simp)
  | spin rounds =>
    cases rounds with
    | zero =>
      rw [hc] at h
      dsimp only at h
      split at h
      · obtain rfl := Option.some.inj h
        exact .take (by omega) (by rw [hc]; rfl) (by rw [hc]; rfl)
      · obtain rfl := Option.some.inj h
        exact .sleep (by omega) (by rw [hc]; rfl) (by rw [hc]; rfl)
    | succ rounds =>
      rw [hc] at h
      obtain rfl := Option.some.inj h
      exact .goto (by rw [hc]; rfl) (by rw [hc]; rfl) (fun _ _ => trivial) (by simp)
  | spinning rounds oldCount =>
    rw [hc] at h
    dsimp only at h
    split at h
    · obtain rfl := Option.some.inj h
      exact .take (by omega) (by rw [hc]; rfl) (by rw [hc]; rfl)
    · obtain rfl := Option.some.inj h
      exact .goto (by rw [hc]; rfl) (by rw [hc]; rfl) (fun _ _ => trivial) (by simp)
  | sleeping =>
    rw [hc] at h
    dsimp only at h
    split at h
    · split at h
      · rename_i htimed
        obtain rfl := Option.some.inj h
        refine .goto (by rw [hc]; rfl) (by rw [hc]; rfl) (fun huntimed _ => ?_) (by simp)
        rw [huntimed] at htimed
        cases htimed
      · cases h
    · split at h
      · obtain rfl := Option.some.inj h
        exact .wake (by omega) (by rw [hc]; rfl) (by rw [hc]; rfl)
      · cases h
  | undo =>
    rw [hc] at h
    obtain rfl := Option.some.inj h
    exact .goto (by rw [hc]; rfl) (by rw [hc]; rfl)
          (fun _ hd => by rw [hc] at hd; exact hd) (by simp)
  | undoing oldCount =>
    rw [hc] at h
    dsimp only at h
    split at h
    · split at h
      · obtain rfl := Option.some.inj h
        exact .wake (by omega) (by rw [hc]; rfl) (by rw [hc]; rfl)
      · obtain rfl := Option.some.inj h
        exact .goto (by rw [hc]; rfl) (by rw [hc]; rfl)
          (fun _ hd => by rw [hc] at hd; exact hd) (by simp)
    · split at h
      · obtain rfl := Option.some.inj h
        exact .giveUp (by omega) (by rw [hc]; rfl) (by rw [hc]; rfl) (by rw [hc]; exact id)
      · obtain rfl := Option.some.inj h
        exact .goto (by rw [hc]; rfl) (by rw [hc]; rfl)
          (fun _ hd => by rw [hc] at hd; exact hd) (by simp)
  | idle =>
    rw [hc] at h
    cases h
  | returned acquired =>
    rw [hc] at h
    cases h

theorem books_goto {w : Waiter} (hwaits : (s.waiter c).waits = w.waits)
    (hgranted : (s.waiter c).granted = w.granted) : (s.goto c w).books = s.books := by
  have hw := total_update Waiter.waits s.waiter c w
  have hg := total_update Waiter.granted s.waiter c w
  ext <;> simp only [State.books, State.goto] <;> omega

theorem Advance.move (h : Advance s c t) : Move s.books t.books := by
  have hw := fun w => total_update Waiter.waits s.waiter c w
  have hg := fun w => total_update Waiter.granted s.waiter c w
  have hle := le_total Waiter.waits s.waiter c
  cases h with
  | goto hwaits hgranted =>
    rw [books_goto hwaits hgranted]
    exact .quiet
  | take hcount hwaits hgranted =>
    have hbooks : (s.take c).books = { s.books with
        mCount := s.books.mCount - 1
        granted := s.books.granted + 1
        acquired := s.books.acquired + 1 } := by
      have hw := hw (.returned true)
      have hg := hg (.returned true)
      ext <;> simp only [State.books, State.take, Waiter.waits, Waiter.granted] at * <;> omega
    rw [hbooks]
    exact .take hcount
  | sleep hcount hwaits hgranted =>
    have hbooks : (s.sleep c).books = { s.books with
        mCount := s.books.mCount - 1
        waiting := s.books.waiting + 1 } := by
      have hw := hw .sleeping
      have hg := hg .sleeping
      ext <;> simp only [State.books, State.sleep, Waiter.waits, Waiter.granted] at * <;> omega
    rw [hbooks]
    exact .sleep hcount
  | wake hsema hwaits hgranted =>
    have hbooks : (s.wake c).books = { s.books with
        mSema := s.books.mSema - 1
        waiting := s.books.waiting - 1
        granted := s.books.granted + 1
        acquired := s.books.acquired + 1 } := by
      have hw := hw (.returned true)
      have hg := hg (.returned true)
      ext <;> simp only [State.books, State.wake, Waiter.waits, Waiter.granted] at * <;> omega
    rw [hbooks]
    exact .wake hsema (by simp only [State.books]; omega)
  | giveUp hcount hwaits hgranted =>
    have hbooks : (s.giveUp c).books = { s.books with
        mCount := s.books.mCount + 1
        waiting := s.books.waiting - 1 } := by
      have hw := hw (.returned false)
      have hg := hg (.returned false)
      ext <;> simp only [State.books, State.giveUp, Waiter.waits, Waiter.granted] at * <;> omega
    rw [hbooks]
    exact .undo hcount (by simp only [State.books]; omega)

omit [Fintype π] [Fintype κ] in
theorem Advance.frame (h : Advance s c t) :
    t.acquired + (s.waiter c).granted = s.acquired + (t.waiter c).granted ∧
      (∀ j, j ≠ c → t.waiter j = s.waiter j) ∧ t.timed = s.timed ∧ t.toRelease = s.toRelease ∧
      t.signalled = s.signalled ∧ t.waiter c ≠ .idle ∧
      (s.timed c = false → (s.waiter c).Direct → (t.waiter c).Direct) := by
  have hself : ∀ w, (s.goto c w).waiter c = w := fun w => by
    simp only [State.goto, Function.update_self]
  have hne : ∀ w j, j ≠ c → (s.goto c w).waiter j = s.waiter j := fun w j hj => by
    simp only [State.goto, Function.update_of_ne hj]
  cases h with
  | goto hwaits hgranted hdirect hinside =>
    rw [hself, hgranted]
    exact ⟨rfl, hne _, rfl, rfl, rfl, hinside, hdirect⟩
  | take hcount hwaits hgranted =>
    have hc : (s.take c).waiter c = .returned true := hself _
    rw [hc, hgranted]
    exact ⟨rfl, hne _, rfl, rfl, rfl, by simp, fun _ _ => trivial⟩
  | sleep hcount hwaits hgranted =>
    have hc : (s.sleep c).waiter c = .sleeping := hself _
    rw [hc, hgranted]
    exact ⟨rfl, hne _, rfl, rfl, rfl, by simp, fun _ _ => trivial⟩
  | wake hsema hwaits hgranted =>
    have hc : (s.wake c).waiter c = .returned true := hself _
    rw [hc, hgranted]
    exact ⟨rfl, hne _, rfl, rfl, rfl, by simp, fun _ _ => trivial⟩
  | giveUp hcount hwaits hgranted hdirect =>
    have hc : (s.giveUp c).waiter c = .returned false := hself _
    rw [hc, hgranted]
    exact ⟨rfl, hne _, rfl, rfl, rfl, by simp, fun _ hd => absurd hd hdirect⟩

omit [Fintype π] [Fintype κ] in
/-- Inside `wait` there is a next step, except in the kernel semaphore at zero. -/
theorem exists_advance (hidle : s.waiter c ≠ .idle)
    (hreturned : ∀ acquired, s.waiter c ≠ .returned acquired) :
    (∃ t, s.advance c false = some t) ∨ s.waiter c = .sleeping ∧ s.mSema = 0 := by
  rw [State.advance]
  cases hc : s.waiter c with
  | idle => exact absurd hc hidle
  | returned acquired => exact absurd hc (hreturned acquired)
  | sleeping =>
    by_cases hsema : s.mSema = 0
    · exact .inr ⟨rfl, hsema⟩
    · exact .inl ⟨s.wake c, by simp [Nat.pos_of_ne_zero hsema]⟩
  | trying oldCount =>
    dsimp only
    split
    · split <;> exact .inl ⟨_, rfl⟩
    · exact .inl ⟨_, rfl⟩
  | spin rounds =>
    cases rounds with
    | zero =>
      dsimp only
      split <;> exact .inl ⟨_, rfl⟩
    | succ rounds => exact .inl ⟨_, rfl⟩
  | spinning rounds oldCount =>
    dsimp only
    split <;> exact .inl ⟨_, rfl⟩
  | undo => exact .inl ⟨_, rfl⟩
  | undoing oldCount =>
    dsimp only
    split
    · split <;> exact .inl ⟨_, rfl⟩
    · split <;> exact .inl ⟨_, rfl⟩

variable [DecidableEq π]

inductive Step (s : State π κ) : Event π κ → State π κ → Prop
  | wait {c : κ} {timed : Bool} (hc : s.waiter c = .idle) :
    Step s (.wait c timed)
      { s.goto c (.trying s.mCount) with timed := Function.update s.timed c timed }
  | advance {c : κ} {weak : Bool} {t : State π κ} (ha : Advance s c t) : Step s (.advance c weak) t
  | leave {c : κ} {acquired : Bool} (hc : s.waiter c = .returned acquired) :
    Step s (.leave c) (s.goto c .idle)
  | signal {p : π} {count : ℕ} (hp : s.toRelease p = 0) :
    Step s (.signal p count) { s with
      mCount := s.mCount + count
      toRelease := Function.update s.toRelease p (min (-s.mCount).toNat count)
      signalled := s.signalled + count }
  | release {p : π} (hp : 0 < s.toRelease p) :
    Step s (.release p) { s with
      mSema := s.mSema + s.toRelease p
      toRelease := Function.update s.toRelease p 0 }

omit [Fintype π] [Fintype κ] in
theorem step_cases {e : Event π κ} (h : step s e = some t) : Step s e t := by
  cases e with
  | advance c weak => exact .advance (advance_cases h)
  | _ =>
    rw [step] at h
    split at h
    · rename_i hc
      obtain rfl := Option.some.inj h
      constructor
      exact hc
    · cases h

theorem move_of_step {e : Event π κ} (h : step s e = some t) : Move s.books t.books := by
  cases step_cases h with
  | @wait c timed hc =>
    have hbooks : (s.goto c (.trying s.mCount)).books = s.books :=
      books_goto (by rw [hc]; rfl) (by rw [hc]; rfl)
    exact hbooks ▸ .quiet
  | advance ha => exact ha.move
  | @leave c acquired hc =>
    have hw := total_update Waiter.waits s.waiter c .idle
    have hg := total_update Waiter.granted s.waiter c .idle
    have hle := le_total Waiter.granted s.waiter c
    rw [hc] at hw hg hle
    cases acquired with
    | true =>
      have hbooks : (s.goto c .idle).books =
          { s.books with granted := s.books.granted - 1 } := by
        ext <;> simp only [State.books, State.goto, Waiter.waits, Waiter.granted] at * <;> omega
      rw [hbooks]
      exact .leave hle
    | false =>
      rw [books_goto (by rw [hc]; rfl) (by rw [hc]; rfl)]
      exact .quiet
  | @signal p count hp =>
    have hr := total_update id s.toRelease p (min (-s.mCount).toNat count)
    rw [hp] at hr
    have hbooks := Move.signal (b := s.books) count
    simp only [State.books, id] at hbooks hr ⊢
    rwa [← hr] at hbooks
  | @release p =>
    have hr := total_update id s.toRelease p 0
    have hle := le_total id s.toRelease p
    have hbooks := Move.release (b := s.books) (s.toRelease p) hle
    simp only [State.books, id] at hbooks hr ⊢
    rwa [show total id (Function.update s.toRelease p 0) = _ from Nat.eq_sub_of_add_eq hr]

end Moves

section Runs
variable [DecidableEq π] [DecidableEq κ]

theorem balanced_of_run {initialCount : ℕ} {es : List (Event π κ)} {s : State π κ}
    (hrun : run step (.start initialCount) es = some s) : Balanced initialCount s.books :=
  run_invariant (fun s => Balanced initialCount s.books)
    (fun _ _ _ h he => h.move (move_of_step he)) (balanced_start initialCount) hrun

theorem signalled_le_of_run {es : List (Event π κ)} {s t : State π κ}
    (hrun : run step s es = some t) : s.signalled ≤ t.signalled := by
  refine run_invariant (fun u => s.signalled ≤ u.signalled) ?_ le_rfl hrun
  intro u e v hle he
  exact hle.trans (move_of_step he).signalled_le

/-- In every run in which the permits fit the counter, the counter never leaves its range and no
more permits are acquired than there are. A thread sleeps with nothing under way to wake it only
when all permits are taken; a thread that cannot take back its decrement has a release to wait for;
and when no thread is inside any call, all that were signalled and not acquired are on the counter
and none in the kernel semaphore. -/
theorem permits_of_run {width initialCount : ℕ} {es : List (Event π κ)} {s : State π κ}
    (hwidth : 32 ≤ width) (hthreads : Fintype.card κ < 2 ^ 31)
    (hcount : initialCount + s.signalled < 2 ^ (width - 1))
    (hrun : run step (.start initialCount) es = some s) :
    (∀ before after u, es = before ++ after → run step (.start initialCount) before = some u →
        u.InRange width) ∧
      s.acquired ≤ initialCount + s.signalled ∧
      (∀ c, s.waiter c = .sleeping → s.mSema = 0 → (∀ p, s.toRelease p = 0) →
        s.acquired = initialCount + s.signalled) ∧
      (∀ c, (s.waiter c).waits = 1 → 0 ≤ s.mCount → s.mSema = 0 → ∃ p, 0 < s.toRelease p) ∧
      ((∀ c, (s.waiter c).waits = 0) → (∀ p, s.toRelease p = 0) →
        s.mSema = 0 ∧ s.mCount + s.acquired = initialCount + s.signalled) := by
  refine ⟨fun before after u hes hu => ?_, ?_⟩
  · obtain ⟨v, hv, hafter⟩ := run_append.mp (hes ▸ hrun)
    obtain rfl := Option.some.inj (hu.symm.trans hv)
    have hle := signalled_le_of_run hafter
    exact (balanced_of_run hu).inRange hwidth hthreads (by omega)
  obtain ⟨hpermits, hkernel⟩ := balanced_of_run hrun
  simp only [State.books] at hpermits hkernel
  have hpending : (∀ p, s.toRelease p = 0) → total id s.toRelease = 0 := fun h => total_eq_zero h
  refine ⟨by omega, fun c hc hsema hrel => ?_, fun c hc hcount hsema => ?_, fun hidle hrel => ?_⟩
  · have hp := hpending hrel
    have hle := le_total Waiter.waits s.waiter c
    rw [hc, Waiter.waits] at hle
    omega
  · by_contra hno
    have hp := hpending fun p => Nat.eq_zero_of_not_pos fun hpos => hno ⟨p, hpos⟩
    have hle := le_total Waiter.waits s.waiter c
    omega
  · have hp := hpending hrel
    have hw : total Waiter.waits s.waiter = 0 := total_eq_zero hidle
    omega

/-- Two permits signalled before the waits, one of them acquired. -/
theorem permits_of_run_two : ∃ s : State Unit (Fin 2),
    run step (.start 0) [.wait 0 false, .signal () 2, .wait 1 true, .advance 1 true,
      .advance 1 false, .leave 1] = some s ∧
    s.acquired ≤ 0 + s.signalled := by
  obtain ⟨s, hs, hsignalled⟩ : ∃ s : State Unit (Fin 2),
      run step (.start 0) [.wait 0 false, .signal () 2, .wait 1 true, .advance 1 true,
        .advance 1 false, .leave 1] = some s ∧ s.signalled = 2 := ⟨_, rfl, rfl⟩
  have hcount : 0 + s.signalled < 2 ^ (64 - 1) := by rw [hsignalled]; decide
  exact ⟨s, hs, (permits_of_run (by decide) (by simp) hcount hs).2.1⟩

end Runs

end LightweightSemaphore
end PyCtp
