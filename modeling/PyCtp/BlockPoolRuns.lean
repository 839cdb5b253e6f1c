import PyCtp.BlockPool
import PyCtp.LinkedChains
import Mathlib.Algebra.GroupWithZero.Action.Defs

/-!
# Runs of the pool of blocks

A block that exists is on the free list, marked to be put there, in the hands of one thread, or out
with a caller; the references of a block are those of the list and of the threads. While a thread
holds a reference, the next node of the block does not change, so a swap of the head that succeeds
takes off one block and leaves the others.
-/
namespace PyCtp
open LabelledRuns Tallies LinkedChains

namespace BlockPool

namespace Thread

def refs (n : ℕ) : Thread → ℕ
  | .counted m | .swapping m _ | .releasing m _ | .inserting m _ _ | .retrying m _ _ =>
    if m = n then 1 else 0
  | .taken m | .subtracting m => if m = n then 2 else 0
  | _ => 0

def stake (n : ℕ) : Thread → ℕ
  | .adding m | .inserting m _ _ | .retrying m _ _ | .taken m | .subtracting m =>
    if m = n then 1 else 0
  | _ => 0

def puts (n : ℕ) : Thread → ℕ
  | .knowing m _ | .linking m _ _ | .referring m _ _ => if m = n then 1 else 0
  | _ => 0

/-- What the thread knows of the next node of the block. -/
def Knows (next : ℕ → Option ℕ) : Thread → Prop
  | .swapping m nx => next m = nx
  | .referring m head _ | .inserting m head _ => next m = head
  | .counting _ r => r % shouldBeOnFreeList ≠ 0
  | _ => True

theorem refs_le (n : ℕ) (k : Thread) : k.refs n ≤ 2 := by
  have hle : ∀ m : ℕ, (if m = n then 1 else 0) ≤ 2 ∧ (if m = n then 2 else 0) ≤ 2 := by
    intro m
    split <;> simp
  cases k with
  | counted m => exact (hle m).1
  | swapping m => exact (hle m).1
  | releasing m => exact (hle m).1
  | inserting m => exact (hle m).1
  | retrying m => exact (hle m).1
  | taken m => exact (hle m).2
  | subtracting m => exact (hle m).2
  | _ => exact Nat.zero_le 2

end Thread

theorem resumed (caller : Caller) (n : ℕ) : caller.resume.refs n = 0 ∧
    caller.resume.stake n = 0 ∧ caller.resume.puts n = 0 ∧ ∀ next, caller.resume.Knows next := by
  cases caller with
  | add => exact ⟨rfl, rfl, rfl, fun _ => trivial⟩
  | tryGet head => cases head <;> exact ⟨rfl, rfl, rfl, fun _ => trivial⟩

section Definitions
variable {κ : Type*} [Fintype κ]

/-- The block is of the initial pool and claimed, or it has been created. -/
def Made (s : State κ) (n : ℕ) : Prop :=
  n < s.initialBlockPoolSize ∧ n < s.initialBlockPoolIndex ∨
    s.initialBlockPoolSize ≤ n ∧ n < s.initialBlockPoolSize + s.created

instance (s : State κ) (n : ℕ) : Decidable (Made s n) :=
  inferInstanceAs (Decidable (_ ∨ _))

def counted (l : List ℕ) (s : State κ) (n : ℕ) : ℕ := l.count n + total (Thread.refs n) s.thread

/-- A marked block without references is about to be put on the list. -/
def due (flag refs : ℕ) : ℕ := if flag = 1 ∧ refs = 0 then 1 else 0

/-- The invariant of the pool, with the blocks on the free list and those marked to be there. -/
structure Inv (l : List ℕ) (flag : ℕ → ℕ) (s : State κ) : Prop where
  linked : Linked s.freeListNext s.freeListHead l
  refs : ∀ n, s.freeListRefs n = shouldBeOnFreeList * flag n + counted l s n
  place : ∀ n, l.count n + flag n + total (Thread.stake n) s.thread +
    (if s.out n then 1 else 0) = if Made s n then 1 else 0
  puts : ∀ n, total (Thread.puts n) s.thread = due (flag n) (counted l s n)
  knows : ∀ c, (s.thread c).Knows s.freeListNext
  intact : s.fault = false

end Definitions

section Frame
variable {κ : Type*} [Fintype κ] [DecidableEq κ] {l l' : List ℕ} {flag flag' : ℕ → ℕ}
  {s t : State κ} {c : κ} {k : Thread}

omit [DecidableEq κ] in
theorem counted_le (hs : Inv l flag s) (n : ℕ) : counted l s n ≤ 1 + 2 * Fintype.card κ := by
  have hplace := hs.place n
  have hrefs : total (Thread.refs n) s.thread ≤ 2 * Fintype.card κ := by
    calc total (Thread.refs n) s.thread
        ≤ ∑ _i : κ, 2 := Finset.sum_le_sum fun i _ => (s.thread i).refs_le n
      _ = 2 * Fintype.card κ := by rw [Finset.sum_const, Finset.card_univ, smul_eq_mul,
          Nat.mul_comm]
  have hone : (if Made s n then 1 else 0) ≤ 1 := by split <;> omega
  rw [counted]
  omega

/-- What the step of a thread from `old` to `new` does to the accounts of a block. -/
structure Accounts (l l' : List ℕ) (flag flag' : ℕ → ℕ) (s t : State κ) (old new : Thread)
    (n m : ℕ) : Prop where
  counted : m + l.count n + old.refs n = counted l s n + l'.count n + new.refs n
  refs : t.freeListRefs n = shouldBeOnFreeList * flag' n + m
  place : l'.count n + flag' n + new.stake n + (if t.out n then 1 else 0) +
      (if Made s n then 1 else 0) =
    l.count n + flag n + old.stake n + (if s.out n then 1 else 0) + if Made t n then 1 else 0
  puts : new.puts n + due (flag n) (BlockPool.counted l s n) = old.puts n + due (flag' n) m

omit [DecidableEq κ] in
theorem accounts_of_same {old new : Thread} {n m : ℕ} (hout : t.out n = s.out n)
    (hmade : Made t n ↔ Made s n)
    (hcounted : m + l.count n + old.refs n = counted l s n + l'.count n + new.refs n)
    (hrefs : t.freeListRefs n = shouldBeOnFreeList * flag' n + m)
    (hplace : l'.count n + flag' n + new.stake n = l.count n + flag n + old.stake n)
    (hputs : new.puts n + due (flag n) (counted l s n) = old.puts n + due (flag' n) m) :
    Accounts l l' flag flag' s t old new n m where
  counted := hcounted
  refs := hrefs
  place := by
    have hmade : (if Made t n then 1 else 0) = if Made s n then 1 else 0 := if_congr hmade rfl rfl
    rw [hout, hplace, hmade]
  puts := hputs

omit [DecidableEq κ] in
theorem Inv.accounts_same (hs : Inv l flag s) {old new : Thread} {n : ℕ}
    (hrefs : t.freeListRefs n = s.freeListRefs n) (hcount : l'.count n = l.count n)
    (hflag : flag' n = flag n) (hout : t.out n = s.out n) (hmade : Made t n ↔ Made s n)
    (hnew : new.refs n = old.refs n ∧ new.stake n = old.stake n ∧ new.puts n = old.puts n) :
    Accounts l l' flag flag' s t old new n (counted l s n) :=
  accounts_of_same hout hmade (by rw [hcount, hnew.1]) (by rw [hrefs, hflag, hs.refs n])
    (by rw [hcount, hflag, hnew.2.1]) (by rw [hflag, hnew.2.2])

theorem Inv.of_step (hs : Inv l flag s) (hthread : t.thread = Function.update s.thread c k)
    (hlinked : Linked t.freeListNext t.freeListHead l')
    (haccounts : ∀ n, ∃ m, Accounts l l' flag flag' s t (s.thread c) k n m)
    (hknows : k.Knows t.freeListNext)
    (hother : ∀ i, (s.thread i).Knows s.freeListNext → (s.thread i).Knows t.freeListNext)
    (hfault : t.fault = false) : Inv l' flag' t := by
  have hcounted : ∀ n m, Accounts l l' flag flag' s t (s.thread c) k n m →
      m = counted l' t n := by
    intro n m h
    have hold := h.counted
    have htotal := total_update (Thread.refs n) s.thread c k
    rw [← hthread] at htotal
    rw [counted] at hold ⊢
    omega
  refine ⟨hlinked, fun n => ?_, fun n => ?_, fun n => ?_, fun i => ?_, hfault⟩
  · obtain ⟨m, h⟩ := haccounts n
    rw [← hcounted n m h]
    exact h.refs
  · obtain ⟨m, h⟩ := haccounts n
    have hold := hs.place n
    have hnew := h.place
    have htotal := total_update (Thread.stake n) s.thread c k
    rw [← hthread] at htotal
    omega
  · obtain ⟨m, h⟩ := haccounts n
    have hold := hs.puts n
    have hnew := h.puts
    have htotal := total_update (Thread.puts n) s.thread c k
    rw [← hthread] at htotal
    rw [← hcounted n m h]
    omega
  · rw [hthread]
    by_cases hi : i = c
    · subst hi
      rw [Function.update_self]
      exact hknows
    · rw [Function.update_of_ne hi]
      exact hother i (hs.knows i)

end Frame

section Arithmetic
variable {a b f m : ℕ}

theorem add32_of_lt (h : a + b < 2 ^ 32) : add32 a b = a + b := Nat.mod_eq_of_lt h

theorem sub32_of_le (hle : b ≤ a) (ha : a < 2 ^ 32) : sub32 a b = a - b := by
  rw [sub32]
  omega

theorem due_of_pos (h : 0 < m) : due f m = 0 := if_neg fun hboth => by omega

theorem due_zero_left : due 0 m = 0 := if_neg fun hboth => by simp at hboth

theorem due_one_zero : due 1 0 = 1 := rfl

theorem and_refsMask (hm : m < shouldBeOnFreeList) :
    (shouldBeOnFreeList * f + m) &&& refsMask = m := by
  have hmask : refsMask = 2 ^ 31 - 1 := rfl
  rw [hmask, Nat.and_two_pow_sub_one_eq_mod]
  change m < 2 ^ 31 at hm
  change (2 ^ 31 * f + m) % 2 ^ 31 = m
  omega

theorem and_shouldBeOnFreeList (hm : m < shouldBeOnFreeList) : m &&& shouldBeOnFreeList = 0 := by
  have hbit : shouldBeOnFreeList = 2 ^ 31 := rfl
  rw [hbit] at hm ⊢
  apply Nat.eq_of_testBit_eq
  intro i
  rw [Nat.testBit_and, Nat.testBit_two_pow, Nat.zero_testBit]
  by_cases hi : 31 = i
  · subst hi
    rw [Nat.testBit_lt_two_pow hm, Bool.false_and]
  · rw [decide_eq_false hi, Bool.and_false]

end Arithmetic

section Steps
variable {κ : Type*} [Fintype κ] [DecidableEq κ] {l : List ℕ} {flag : ℕ → ℕ} {s t : State κ}
  {c : κ} {h n r : ℕ} {k : Thread}

omit [DecidableEq κ] in
theorem refs_le_counted (l : List ℕ) (s : State κ) (c : κ) (n : ℕ) :
    (s.thread c).refs n ≤ counted l s n :=
  (le_total (Thread.refs n) s.thread c).trans (Nat.le_add_left _ _)

namespace Inv

omit [DecidableEq κ] in
theorem flag_le (hs : Inv l flag s) (n : ℕ) : flag n ≤ 1 := by
  have hplace := hs.place n
  have hone : (if Made s n then 1 else 0) ≤ 1 := by split <;> omega
  omega

theorem goto (hs : Inv l flag s)
    (hk : ∀ n, k.refs n = (s.thread c).refs n ∧ k.stake n = (s.thread c).stake n ∧
      k.puts n = (s.thread c).puts n)
    (hknows : k.Knows s.freeListNext) : Inv l flag (s.goto c k) :=
  hs.of_step rfl hs.linked (fun n => ⟨_, hs.accounts_same rfl rfl rfl rfl Iff.rfl (hk n)⟩) hknows
    (fun _ h => h) hs.intact

theorem counting (hs : Inv l flag s) (hthreads : 2 * Fintype.card κ + 2 < shouldBeOnFreeList)
    (hc : s.thread c = .counting h r) (hr : s.freeListRefs h = r) :
    Inv l flag ((s.setRefs h (add32 r 1)).goto c (.counted h)) := by
  refine hs.of_step rfl hs.linked (fun n => ?_) trivial (fun _ h => h) hs.intact
  rw [hc]
  by_cases hn : n = h
  · subst hn
    have hrefs := hs.refs n
    have hle := counted_le hs n
    have hflag := hs.flag_le n
    have hknows := hs.knows c
    rw [hc, Thread.Knows, ← hr, hrefs, Nat.mul_add_mod] at hknows
    rw [shouldBeOnFreeList] at hrefs hthreads hknows
    have hpos : 0 < counted l s n := by
      by_contra hzero
      apply hknows
      have hzero : counted l s n = 0 := by omega
      rw [hzero]
    refine ⟨counted l s n + 1, ?_, ?_, ?_, ?_⟩
    · simp only [Thread.refs, if_true]
      omega
    · have hself : ((s.setRefs n (add32 r 1)).goto c (.counted n)).freeListRefs n = add32 r 1 :=
        Function.update_self ..
      rw [hself, add32_of_lt (by omega), shouldBeOnFreeList]
      omega
    · rfl
    · rw [due_of_pos hpos, due_of_pos (Nat.succ_pos _)]
      rfl
  · refine ⟨_, hs.accounts_same (Function.update_of_ne hn _ _) rfl rfl rfl Iff.rfl ⟨?_, rfl, rfl⟩⟩
    exact if_neg fun heq => hn heq.symm

omit [DecidableEq κ] in
theorem of_stake (hs : Inv l flag s) (hstake : (s.thread c).stake n = 1) :
    l.count n = 0 ∧ flag n = 0 ∧ s.out n = false := by
  have hplace := hs.place n
  have hle := le_total (Thread.stake n) s.thread c
  have hone : (if Made s n then 1 else 0) ≤ 1 := by split <;> omega
  refine ⟨by omega, by omega, ?_⟩
  by_contra hout
  rw [if_pos (Bool.eq_true_of_not_eq_false hout)] at hplace
  omega

omit [DecidableEq κ] in
theorem of_puts (hs : Inv l flag s) (hputs : (s.thread c).puts n = 1) :
    flag n = 1 ∧ counted l s n = 0 := by
  have hdue := hs.puts n
  have hle := le_total (Thread.puts n) s.thread c
  by_contra hnot
  rw [due, if_neg hnot] at hdue
  omega

theorem swapping (hs : Inv l flag s) {next : Option ℕ} (hc : s.thread c = .swapping h next)
    (hhead : s.freeListHead = some h) :
    ∃ l', l = h :: l' ∧ Inv l' flag { s.goto c (.taken h) with freeListHead := next } := by
  have hknows := hs.knows c
  rw [hc, Thread.Knows] at hknows
  obtain ⟨l', rfl, hlinked⟩ := Linked.eq_cons (hhead ▸ hs.linked)
  refine ⟨l', rfl, hs.of_step rfl (hknows ▸ hlinked) (fun n => ?_) trivial (fun _ h => h) hs.intact⟩
  rw [hc]
  by_cases hn : n = h
  · subst hn
    refine ⟨counted (n :: l') s n, accounts_of_same rfl Iff.rfl ?_ (hs.refs n) ?_ rfl⟩
    · simp only [Thread.refs, if_true, List.count_cons_self]
      omega
    · simp only [Thread.stake, if_true, List.count_cons_self]
      omega
  · have hne : ¬h = n := fun heq => hn heq.symm
    refine ⟨_, hs.accounts_same rfl (List.count_cons_of_ne hne).symm rfl rfl Iff.rfl ?_⟩
    simp [Thread.refs, Thread.stake, Thread.puts, hne]

theorem taken (hs : Inv l flag s) (hthreads : 2 * Fintype.card κ + 2 < shouldBeOnFreeList)
    (hc : s.thread c = .taken h) :
    s.freeListRefs h &&& shouldBeOnFreeList = 0 ∧ Inv l flag (s.goto c (.subtracting h)) := by
  have hflag := (hs.of_stake (c := c) (n := h) (by rw [hc]; exact if_pos rfl)).2.1
  have hle := counted_le hs h
  refine ⟨?_, hs.goto (fun n => by rw [hc]; exact ⟨rfl, rfl, rfl⟩) trivial⟩
  rw [hs.refs h, hflag, Nat.mul_zero, Nat.zero_add]
  exact and_shouldBeOnFreeList (by omega)

theorem subtracting (hs : Inv l flag s) (hthreads : 2 * Fintype.card κ + 2 < shouldBeOnFreeList)
    (hc : s.thread c = .subtracting h) : s.out h = false ∧
      Inv l flag ((s.setRefs h (sub32 (s.freeListRefs h) 2)).give c h) := by
  obtain ⟨hcount, hflag, hout⟩ :=
    hs.of_stake (c := c) (n := h) (by rw [hc]; exact if_pos rfl)
  refine ⟨hout, hs.of_step rfl hs.linked (fun n => ?_) trivial (fun _ h => h) hs.intact⟩
  by_cases hn : n = h
  · subst hn
    have hrefs := hs.refs n
    have hle := counted_le hs n
    have hheld := refs_le_counted l s c n
    rw [hc, Thread.refs, if_pos rfl] at hheld
    rw [hc]
    rw [hflag, Nat.mul_zero, Nat.zero_add] at hrefs
    rw [shouldBeOnFreeList] at hthreads
    refine ⟨counted l s n - 2, ?_, ?_, ?_, ?_⟩
    · simp only [Thread.refs, if_true]
      omega
    · have hself : ((s.setRefs n (sub32 (s.freeListRefs n) 2)).give c n).freeListRefs n =
          sub32 (s.freeListRefs n) 2 := Function.update_self ..
      rw [hself, hrefs, sub32_of_le hheld (by omega), hflag, Nat.mul_zero, Nat.zero_add]
    · have hself : ((s.setRefs n (sub32 (s.freeListRefs n) 2)).give c n).out n = true :=
        Function.update_self ..
      have hmade : Made ((s.setRefs n (sub32 (s.freeListRefs n) 2)).give c n) n ↔ Made s n :=
        Iff.rfl
      simp only [Thread.stake, if_true, hself, hout, hmade, Bool.false_eq_true, if_false]
    · rw [hflag, due_zero_left, due_zero_left]
      rfl
  · have hne : ¬h = n := fun heq => hn heq.symm
    refine ⟨_, hs.accounts_same (Function.update_of_ne hn _ _) rfl rfl
      (Function.update_of_ne hn _ _) Iff.rfl ?_⟩
    rw [hc]
    simp [Thread.refs, Thread.stake, Thread.puts, hne]

theorem releasing (hs : Inv l flag s) (hthreads : 2 * Fintype.card κ + 2 < shouldBeOnFreeList)
    {head : Option ℕ} (hc : s.thread c = .releasing h head) :
    Inv l flag ((s.setRefs h (sub32 (s.freeListRefs h) 1)).goto c
      (if s.freeListRefs h = shouldBeOnFreeList + 1 then .knowing h (.tryGet head)
      else .loop head)) := by
  have hloop : ∀ n, (Thread.loop head).refs n = 0 ∧ (Thread.loop head).stake n = 0 ∧
      (Thread.loop head).puts n = 0 := by
    intro n
    cases head <;> exact ⟨rfl, rfl, rfl⟩
  refine hs.of_step rfl hs.linked (fun n => ?_) ?_ (fun _ h => h) hs.intact
  · rw [hc]
    by_cases hn : n = h
    · subst hn
      have hrefs := hs.refs n
      have hle := counted_le hs n
      have hflag := hs.flag_le n
      have hheld := refs_le_counted l s c n
      rw [hc, Thread.refs, if_pos rfl] at hheld
      have hlast : s.freeListRefs n = shouldBeOnFreeList + 1 ↔
          flag n = 1 ∧ counted l s n - 1 = 0 := by
        rw [hrefs]
        constructor
        · intro heq
          have hone : flag n = 1 := by
            by_contra hnot
            have hzero : flag n = 0 := by omega
            rw [hzero] at heq
            omega
          rw [hone] at heq
          exact ⟨hone, by omega⟩
        · rintro ⟨hone, hzero⟩
          rw [hone]
          omega
      refine ⟨counted l s n - 1, ?_, ?_, ?_, ?_⟩
      · have hnew : (if s.freeListRefs n = shouldBeOnFreeList + 1 then
            Thread.knowing n (.tryGet head) else .loop head).refs n = 0 := by
          split
          · rfl
          · exact (hloop n).1
        rw [hnew]
        simp only [Thread.refs, if_true]
        omega
      · refine (Function.update_self ..).trans ?_
        rw [shouldBeOnFreeList] at hthreads hrefs ⊢
        rw [sub32_of_le (by omega) (by omega), hrefs]
        omega
      · have hnew : (if s.freeListRefs n = shouldBeOnFreeList + 1 then
            Thread.knowing n (.tryGet head) else .loop head).stake n = 0 := by
          split
          · rfl
          · exact (hloop n).2.1
        rw [hnew]
        rfl
      · have hpos : 0 < counted l s n := by omega
        rw [due_of_pos hpos, due]
        by_cases heq : s.freeListRefs n = shouldBeOnFreeList + 1
        · rw [if_pos heq, if_pos (hlast.mp heq)]
          exact if_pos rfl
        · rw [if_neg heq, if_neg fun hboth => heq (hlast.mpr hboth), (hloop n).2.2]
          rfl
    · have hne : ¬h = n := fun heq => hn heq.symm
      refine ⟨_, hs.accounts_same (Function.update_of_ne hn _ _) rfl rfl rfl Iff.rfl ?_⟩
      split
      · simp [Thread.refs, Thread.stake, Thread.puts, hne]
      · rw [(hloop n).1, (hloop n).2.1, (hloop n).2.2]
        simp [Thread.refs, Thread.stake, Thread.puts, hne]
  · split
    · trivial
    · cases head <;> trivial

theorem adding (hs : Inv l flag s) (hthreads : 2 * Fintype.card κ + 2 < shouldBeOnFreeList)
    (hc : s.thread c = .adding h) :
    Inv l (Function.update flag h 1)
      ((s.setRefs h (add32 (s.freeListRefs h) shouldBeOnFreeList)).goto c
        (if s.freeListRefs h = 0 then .knowing h .add else .idle)) := by
  obtain ⟨hcount, hflag, hout⟩ := hs.of_stake (c := c) (n := h) (by rw [hc]; exact if_pos rfl)
  refine hs.of_step rfl hs.linked (fun n => ?_) ?_ (fun _ h => h) hs.intact
  · rw [hc]
    by_cases hn : n = h
    · subst hn
      have hrefs := hs.refs n
      have hle := counted_le hs n
      rw [hflag, Nat.mul_zero, Nat.zero_add] at hrefs
      have hself : Function.update flag n 1 n = 1 := Function.update_self ..
      refine ⟨counted l s n, accounts_of_same rfl Iff.rfl ?_ ?_ ?_ ?_⟩
      · have hnew : (if s.freeListRefs n = 0 then Thread.knowing n .add else .idle).refs n = 0 := by
          split <;> rfl
        rw [hnew]
        rfl
      · refine (Function.update_self ..).trans ?_
        rw [shouldBeOnFreeList] at hthreads ⊢
        rw [add32_of_lt (by omega), hself, hrefs]
        omega
      · have hnew : (if s.freeListRefs n = 0 then Thread.knowing n .add else .idle).stake n =
            0 := by
          split <;> rfl
        rw [hnew, hself, hflag]
        simp only [Thread.stake, if_true]
      · rw [hflag, due_zero_left, hself, due, hrefs]
        by_cases hzero : counted l s n = 0
        · rw [if_pos hzero, if_pos ⟨rfl, hzero⟩]
          exact if_pos rfl
        · rw [if_neg hzero, if_neg fun hboth => hzero hboth.2]
          rfl
    · have hne : ¬h = n := fun heq => hn heq.symm
      refine ⟨_, hs.accounts_same (Function.update_of_ne hn _ _) rfl (Function.update_of_ne hn _ _)
        rfl Iff.rfl ?_⟩
      split <;> simp [Thread.refs, Thread.stake, Thread.puts, hne]
  · split <;> trivial

theorem linking (hs : Inv l flag s) {head : Option ℕ} {caller : Caller}
    (hc : s.thread c = .linking h head caller) :
    Inv l flag { s.goto c (.referring h head caller) with
      freeListNext := Function.update s.freeListNext h head } := by
  obtain ⟨-, hzero⟩ := hs.of_puts (c := c) (n := h) (by rw [hc]; exact if_pos rfl)
  have hmem : h ∉ l := by
    rw [counted] at hzero
    exact List.count_eq_zero.mp (by omega)
  have hheld : ∀ i, (s.thread i).refs h = 0 := by
    intro i
    have := refs_le_counted l s i h
    omega
  refine hs.of_step rfl (hs.linked.update hmem head) (fun n => ?_) (Function.update_self ..) ?_
    hs.intact
  · rw [hc]
    exact ⟨_, hs.accounts_same rfl rfl rfl rfl Iff.rfl ⟨rfl, rfl, rfl⟩⟩
  · intro i hi
    have hother : ∀ m, m ≠ h → Function.update s.freeListNext h head m = s.freeListNext m :=
      fun m hm => Function.update_of_ne hm _ _
    cases hr : s.thread i with
    | swapping m nx =>
      rw [hr] at hi
      have hm : m ≠ h := by
        intro hm
        have hheld := hheld i
        rw [hr, Thread.refs, if_pos hm] at hheld
        cases hheld
      exact (hother m hm).trans hi
    | inserting m head' caller' =>
      rw [hr] at hi
      have hm : m ≠ h := by
        intro hm
        have hheld := hheld i
        rw [hr, Thread.refs, if_pos hm] at hheld
        cases hheld
      exact (hother m hm).trans hi
    | referring m head' caller' =>
      rw [hr] at hi
      have hm : m ≠ h := by
        intro hm
        have hic : i ≠ c := by
          rintro rfl
          rw [hc] at hr
          cases hr
        have hupdate := total_update (Thread.puts h) s.thread c .idle
        have hle := le_total (Thread.puts h) (Function.update s.thread c .idle) i
        have hputs := hs.puts h
        rw [Function.update_of_ne hic, hr, Thread.puts, if_pos hm] at hle
        rw [hc, Thread.puts, if_pos rfl] at hupdate
        have hone : due (flag h) (counted l s h) ≤ 1 := by
          rw [due]
          split <;> omega
        change _ = _ + 0 at hupdate
        omega
      exact (hother m hm).trans hi
    | counting m r =>
      rw [hr] at hi
      exact hi
    | _ => trivial

theorem referring (hs : Inv l flag s) {head : Option ℕ} {caller : Caller}
    (hc : s.thread c = .referring h head caller) :
    Inv l (Function.update flag h 0)
      ((s.setRefs h 1).goto c (.inserting h head caller)) := by
  obtain ⟨hflag, hzero⟩ := hs.of_puts (c := c) (n := h) (by rw [hc]; exact if_pos rfl)
  have hknows := hs.knows c
  rw [hc] at hknows
  refine hs.of_step rfl hs.linked (fun n => ?_) hknows (fun _ h => h) hs.intact
  rw [hc]
  by_cases hn : n = h
  · subst hn
    have hself : Function.update flag n 0 n = 0 := Function.update_self ..
    refine ⟨1, accounts_of_same rfl Iff.rfl ?_ ?_ ?_ ?_⟩
    · rw [hzero]
      simp only [Thread.refs, if_true]
      omega
    · rw [hself]
      exact Function.update_self ..
    · rw [hself, hflag]
      simp only [Thread.stake, if_true]
    · rw [hself, hflag, hzero, due_one_zero, due_zero_left]
      simp only [Thread.puts, if_true]
  · have hne : ¬h = n := fun heq => hn heq.symm
    refine ⟨_, hs.accounts_same (Function.update_of_ne hn _ _) rfl (Function.update_of_ne hn _ _)
      rfl Iff.rfl ?_⟩
    simp [Thread.refs, Thread.stake, Thread.puts, hne]

theorem inserting (hs : Inv l flag s) {caller : Caller}
    (hc : s.thread c = .inserting h s.freeListHead caller) :
    Inv (h :: l) flag { s.goto c caller.resume with freeListHead := some h } := by
  obtain ⟨hcount, hflag, -⟩ := hs.of_stake (c := c) (n := h) (by rw [hc]; exact if_pos rfl)
  have hknows := hs.knows c
  rw [hc] at hknows
  have hlinked : Linked s.freeListNext (some h) (h :: l) := by
    refine ⟨rfl, ?_⟩
    rw [show s.freeListNext h = s.freeListHead from hknows]
    exact hs.linked
  refine hs.of_step rfl hlinked (fun n => ?_) ((resumed caller h).2.2.2 _) (fun _ h => h)
    hs.intact
  obtain ⟨hrefs, hstake, hputs, -⟩ := resumed caller n
  rw [hc]
  by_cases hn : n = h
  · subst hn
    refine ⟨counted l s n, accounts_of_same rfl Iff.rfl ?_ (hs.refs n) ?_ ?_⟩
    · rw [hrefs]
      simp only [Thread.refs, if_true, List.count_cons_self]
      omega
    · rw [hstake]
      simp only [Thread.stake, if_true, List.count_cons_self]
      omega
    · rw [hputs]
      rfl
  · have hne : ¬h = n := fun heq => hn heq.symm
    refine ⟨_, hs.accounts_same rfl (List.count_cons_of_ne hne) rfl rfl Iff.rfl ?_⟩
    rw [hrefs, hstake, hputs]
    simp [Thread.refs, Thread.stake, Thread.puts, hne]

theorem retrying (hs : Inv l flag s) (hthreads : 2 * Fintype.card κ + 2 < shouldBeOnFreeList)
    {head : Option ℕ} {caller : Caller} (hc : s.thread c = .retrying h head caller) :
    Inv l (Function.update flag h 1)
      ((s.setRefs h (add32 (s.freeListRefs h) (shouldBeOnFreeList - 1))).goto c
        (if s.freeListRefs h = 1 then .linking h head caller else caller.resume)) := by
  obtain ⟨hcount, hflag, hout⟩ := hs.of_stake (c := c) (n := h) (by rw [hc]; exact if_pos rfl)
  refine hs.of_step rfl hs.linked (fun n => ?_) ?_ (fun _ h => h) hs.intact
  · obtain ⟨hrefs', hstake', hputs', -⟩ := resumed caller n
    rw [hc]
    by_cases hn : n = h
    · subst hn
      have hrefs := hs.refs n
      have hle := counted_le hs n
      have hheld := refs_le_counted l s c n
      rw [hc, Thread.refs, if_pos rfl] at hheld
      rw [hflag, Nat.mul_zero, Nat.zero_add] at hrefs
      have hself : Function.update flag n 1 n = 1 := Function.update_self ..
      refine ⟨counted l s n - 1, accounts_of_same rfl Iff.rfl ?_ ?_ ?_ ?_⟩
      · have hnew : (if s.freeListRefs n = 1 then Thread.linking n head caller
            else caller.resume).refs n = 0 := by
          split
          · rfl
          · exact hrefs'
        rw [hnew]
        simp only [Thread.refs, if_true]
        omega
      · refine (Function.update_self ..).trans ?_
        rw [shouldBeOnFreeList] at hthreads ⊢
        rw [add32_of_lt (by omega), hself, hrefs]
        omega
      · have hnew : (if s.freeListRefs n = 1 then Thread.linking n head caller
            else caller.resume).stake n = 0 := by
          split
          · rfl
          · exact hstake'
        rw [hnew, hself, hflag]
        simp only [Thread.stake, if_true]
      · rw [hflag, due_zero_left, hself, due, hrefs]
        by_cases hone : counted l s n = 1
        · rw [if_pos hone, if_pos ⟨rfl, by omega⟩]
          exact if_pos rfl
        · rw [if_neg hone, if_neg fun hboth => hone (by omega), hputs']
          rfl
    · have hne : ¬h = n := fun heq => hn heq.symm
      refine ⟨_, hs.accounts_same (Function.update_of_ne hn _ _) rfl (Function.update_of_ne hn _ _)
        rfl Iff.rfl ?_⟩
      split
      · simp [Thread.refs, Thread.stake, Thread.puts, hne]
      · rw [hrefs', hstake', hputs']
        simp [Thread.refs, Thread.stake, Thread.puts, hne]
  · split
    · trivial
    · exact (resumed caller h).2.2.2 _

theorem makes (hs : Inv l flag s) (hthread : t.thread = Function.update s.thread c k)
    (hold : ∀ n, (s.thread c).refs n = 0 ∧ (s.thread c).stake n = 0 ∧ (s.thread c).puts n = 0)
    (hnew : k = .returned (some h)) (hnext : t.freeListNext = s.freeListNext)
    (hhead : t.freeListHead = s.freeListHead) (hrefs : t.freeListRefs = s.freeListRefs)
    (hout : t.out = Function.update s.out h true) (hmade : ¬Made s h ∧ Made t h)
    (hother : ∀ n, n ≠ h → (Made t n ↔ Made s n)) (hfault : t.fault = s.fault) :
    s.out h = false ∧ Inv l flag t := by
  have hfree : s.out h = false := by
    have hplace := hs.place h
    rw [if_neg hmade.1] at hplace
    by_contra hnot
    rw [if_pos (Bool.eq_true_of_not_eq_false hnot)] at hplace
    omega
  refine ⟨hfree, hs.of_step hthread ?_ (fun n => ?_) (by rw [hnew]; trivial) ?_
    (hfault.trans hs.intact)⟩
  · rw [hnext, hhead]
    exact hs.linked
  · obtain ⟨hrefs', hstake', hputs'⟩ := hold n
    rw [hnew]
    by_cases hn : n = h
    · subst hn
      refine ⟨counted l s n, by rw [hrefs']; rfl, by rw [hrefs]; exact hs.refs n, ?_,
        by rw [hputs']; rfl⟩
      rw [hout, Function.update_self, hfree, hstake', if_neg hmade.1, if_pos hmade.2]
      rfl
    · refine ⟨_, hs.accounts_same (congrFun hrefs n) rfl rfl ?_ (hother n hn) ?_⟩
      · rw [hout, Function.update_of_ne hn]
      · rw [hrefs', hstake', hputs']
        exact ⟨rfl, rfl, rfl⟩
  · intro i hi
    rw [hnext]
    exact hi

theorem addBlock (hs : Inv l flag s) (hc : s.thread c = .idle) (hout : s.out h = true) :
    Inv l flag { s.goto c (.adding h) with out := Function.update s.out h false } := by
  refine hs.of_step rfl hs.linked (fun n => ?_) trivial (fun _ h => h) hs.intact
  rw [hc]
  by_cases hn : n = h
  · subst hn
    refine ⟨counted l s n, rfl, hs.refs n, ?_, rfl⟩
    have hself : ({ s.goto c (.adding n) with out := Function.update s.out n false } :
        State κ).out n = false := Function.update_self ..
    rw [hself, hout]
    simp only [Thread.stake, if_true, Bool.false_eq_true, if_false]
    rfl
  · have hne : ¬h = n := fun heq => hn heq.symm
    refine ⟨_, hs.accounts_same rfl rfl rfl (Function.update_of_ne hn _ _) Iff.rfl ?_⟩
    simp [Thread.refs, Thread.stake, Thread.puts, hne]

end Inv

def Gives (s t : State κ) (c : κ) : Prop :=
  (t.out = s.out ∧ ∀ n, t.thread c ≠ .returned (some n)) ∨
    ∃ n, s.out n = false ∧ t.out = Function.update s.out n true ∧
      t.thread c = .returned (some n)

omit [Fintype κ] in
theorem gives_goto (s : State κ) (c : κ) (hk : ∀ n, k ≠ .returned (some n)) :
    Gives s (s.goto c k) c := by
  have hself : (s.goto c k).thread c = k := Function.update_self ..
  exact .inl ⟨rfl, fun n hn => hk n (hself.symm.trans hn)⟩

theorem Inv.advance (hs : Inv l flag s) (hthreads : 2 * Fintype.card κ + 2 < shouldBeOnFreeList)
    (ht : s.advance c = some t) : (∃ l flag, Inv l flag t) ∧ Gives s t c := by
  have hloop : ∀ head : Option ℕ, (∀ n, (Thread.loop head).refs n = 0 ∧
      (Thread.loop head).stake n = 0 ∧ (Thread.loop head).puts n = 0) ∧
      (Thread.loop head).Knows s.freeListNext ∧ ∀ n, Thread.loop head ≠ .returned (some n) := by
    intro head
    cases head <;> exact ⟨fun _ => ⟨rfl, rfl, rfl⟩, trivial, fun n => by simp [Thread.loop]⟩
  have hresume : ∀ (caller : Caller) n, caller.resume ≠ .returned (some n) := by
    intro caller n
    cases caller with
    | add => simp [Caller.resume]
    | tryGet head => exact (hloop head).2.2 n
  rw [State.advance] at ht
  cases hc : s.thread c with
  | idle =>
    rw [hc] at ht
    cases ht
  | creating =>
    rw [hc] at ht
    cases ht
  | returned block =>
    rw [hc] at ht
    cases ht
  | requisitioning =>
    rw [hc] at ht
    obtain rfl := Option.some.inj ht
    refine ⟨⟨l, flag, hs.goto (fun n => ?_) (by split <;> trivial)⟩, gives_goto s c ?_⟩
    · rw [hc]
      split <;> exact ⟨rfl, rfl, rfl⟩
    · split <;> simp
  | claiming =>
    rw [hc] at ht
    obtain rfl := Option.some.inj ht
    split
    · rename_i hlt
      have hmakes := hs.makes (t := ({ s with
          initialBlockPoolIndex := s.initialBlockPoolIndex + 1 } : State κ).give c
            s.initialBlockPoolIndex) rfl
        (fun n => by rw [hc]; exact ⟨rfl, rfl, rfl⟩) rfl rfl rfl rfl rfl ?_ ?_ rfl
      · exact ⟨⟨l, flag, hmakes.2⟩, .inr ⟨_, hmakes.1, rfl, Function.update_self ..⟩⟩
      · constructor
        · rintro (⟨-, hn⟩ | ⟨hn, -⟩) <;> omega
        · exact .inl ⟨hlt, Nat.lt_succ_self _⟩
      · intro n hn
        refine or_congr_left (and_congr_right fun _ => ?_)
        change n < s.initialBlockPoolIndex + 1 ↔ n < s.initialBlockPoolIndex
        omega
    · rename_i hge
      refine ⟨⟨l, flag, hs.of_step rfl hs.linked (fun n => ⟨_, hs.accounts_same rfl rfl rfl rfl ?_
        ?_⟩) trivial (fun _ h => h) hs.intact⟩, .inl ⟨rfl, fun n hn => ?_⟩⟩
      · refine or_congr_left (and_congr_right fun hn => ?_)
        change n < s.initialBlockPoolSize at hn
        change n < s.initialBlockPoolIndex + 1 ↔ n < s.initialBlockPoolIndex
        omega
      · rw [hc]
        exact ⟨rfl, rfl, rfl⟩
      · have hself : (Function.update s.thread c Thread.starting) c = .starting :=
          Function.update_self ..
        cases hself.symm.trans hn
  | starting =>
    rw [hc] at ht
    obtain rfl := Option.some.inj ht
    obtain ⟨hzero, hknows, hreturned⟩ := hloop s.freeListHead
    exact ⟨⟨l, flag, hs.goto (fun n => by rw [hc]; exact hzero n) hknows⟩,
      gives_goto s c hreturned⟩
  | loaded head =>
    rw [hc] at ht
    obtain rfl := Option.some.inj ht
    refine ⟨⟨l, flag, hs.goto (fun n => ?_) ?_⟩, gives_goto s c ?_⟩
    · rw [hc]
      split <;> exact ⟨rfl, rfl, rfl⟩
    · split
      · trivial
      · rename_i hcounted
        have hle := counted_le hs head
        have hlt : counted l s head < shouldBeOnFreeList := by omega
        rw [hs.refs head, and_refsMask hlt] at hcounted
        rw [Thread.Knows, hs.refs head, Nat.mul_add_mod, Nat.mod_eq_of_lt hlt]
        exact hcounted
    · split <;> simp
  | counting head refs =>
    rw [hc] at ht
    obtain rfl := Option.some.inj ht
    split
    · rename_i hrefs
      exact ⟨⟨l, flag, hs.counting hthreads hc hrefs⟩,
        gives_goto (s.setRefs head (add32 refs 1)) c (by simp)⟩
    · exact ⟨⟨l, flag, hs.goto (fun n => by rw [hc]; exact ⟨rfl, rfl, rfl⟩) trivial⟩,
        gives_goto s c (by simp)⟩
  | counted head =>
    rw [hc] at ht
    obtain rfl := Option.some.inj ht
    exact ⟨⟨l, flag, hs.goto (fun n => by rw [hc]; exact ⟨rfl, rfl, rfl⟩) rfl⟩,
      gives_goto s c (by simp)⟩
  | swapping head next =>
    rw [hc] at ht
    obtain rfl := Option.some.inj ht
    split
    · rename_i hhead
      obtain ⟨l', -, ht⟩ := hs.swapping hc hhead
      exact ⟨⟨l', flag, ht⟩, gives_goto s c (k := .taken head) (by simp)⟩
    · exact ⟨⟨l, flag, hs.goto (fun n => by rw [hc]; exact ⟨rfl, rfl, rfl⟩) trivial⟩,
        gives_goto s c (by simp)⟩
  | taken head =>
    rw [hc] at ht
    obtain ⟨hbit, hnext⟩ := hs.taken hthreads hc
    dsimp only at ht
    rw [if_pos hbit] at ht
    obtain rfl := Option.some.inj ht
    exact ⟨⟨l, flag, hnext⟩, gives_goto s c (by simp)⟩
  | subtracting head =>
    rw [hc] at ht
    obtain rfl := Option.some.inj ht
    obtain ⟨hout, hnext⟩ := hs.subtracting hthreads hc
    exact ⟨⟨l, flag, hnext⟩, .inr ⟨head, hout, rfl, Function.update_self ..⟩⟩
  | releasing prevHead head =>
    rw [hc] at ht
    obtain rfl := Option.some.inj ht
    refine ⟨⟨l, flag, hs.releasing hthreads hc⟩,
      gives_goto (s.setRefs prevHead _) c fun n => ?_⟩
    split
    · simp
    · exact (hloop head).2.2 n
  | adding node =>
    rw [hc] at ht
    obtain rfl := Option.some.inj ht
    refine ⟨⟨l, _, hs.adding hthreads hc⟩, gives_goto (s.setRefs node _) c fun n => ?_⟩
    split <;> simp
  | knowing node caller =>
    rw [hc] at ht
    obtain rfl := Option.some.inj ht
    exact ⟨⟨l, flag, hs.goto (fun n => by rw [hc]; exact ⟨rfl, rfl, rfl⟩) trivial⟩,
      gives_goto s c (by simp)⟩
  | linking node head caller =>
    rw [hc] at ht
    obtain rfl := Option.some.inj ht
    exact ⟨⟨l, flag, hs.linking hc⟩, gives_goto s c (k := .referring node head caller) (by simp)⟩
  | referring node head caller =>
    rw [hc] at ht
    obtain rfl := Option.some.inj ht
    exact ⟨⟨l, _, hs.referring hc⟩, gives_goto (s.setRefs node 1) c (by simp)⟩
  | inserting node head caller =>
    rw [hc] at ht
    obtain rfl := Option.some.inj ht
    split
    · rename_i hhead
      subst hhead
      exact ⟨⟨_, flag, hs.inserting hc⟩, gives_goto s c (hresume caller)⟩
    · exact ⟨⟨l, flag, hs.goto (fun n => by rw [hc]; exact ⟨rfl, rfl, rfl⟩) trivial⟩,
        gives_goto s c (by simp)⟩
  | retrying node head caller =>
    rw [hc] at ht
    obtain rfl := Option.some.inj ht
    refine ⟨⟨l, _, hs.retrying hthreads hc⟩, gives_goto (s.setRefs node _) c fun n => ?_⟩
    split
    · simp
    · exact hresume caller n

inductive Moves (s t : State κ) : Event κ → Prop
  | enter {c : κ} (hc : s.thread c = .idle) (ht : t.thread c = .requisitioning)
    (hout : t.out = s.out) : Moves s t (.requisitionBlock c)
  | takes {c : κ} {n : ℕ} (hc : s.thread c = .idle) (hn : s.out n = true)
    (ht : t.thread c = .adding n) (hout : t.out = Function.update s.out n false) :
    Moves s t (.addBlockToFreeList c n)
  | advance {c : κ} (h : Gives s t c) : Moves s t (.advance c)
  | create {c : κ} {allocated : Bool} (h : Gives s t c) : Moves s t (.create c allocated)
  | leave {c : κ} {block : Option ℕ} (hc : s.thread c = .returned block) (ht : t.thread c = .idle)
    (hout : t.out = s.out) : Moves s t (.leave c)

/-- What every step of the pool preserves. -/
theorem Inv.step (hs : Inv l flag s) (hthreads : 2 * Fintype.card κ + 2 < shouldBeOnFreeList)
    {e : Event κ} (he : BlockPool.step s e = some t) :
    (∃ l flag, Inv l flag t) ∧ Moves s t e := by
  have hintact : ¬s.fault = true := by simp [hs.intact]
  rw [BlockPool.step.eq_def, if_neg hintact] at he
  cases e with
  | requisitionBlock c =>
    dsimp only at he
    split at he
    · rename_i hc
      obtain rfl := Option.some.inj he
      exact ⟨⟨l, flag, hs.goto (fun n => by rw [hc]; exact ⟨rfl, rfl, rfl⟩) trivial⟩,
        .enter hc (Function.update_self ..) rfl⟩
    · cases he
  | addBlockToFreeList c block =>
    dsimp only at he
    split at he
    · rename_i hc
      split at he
      · rename_i hout
        obtain rfl := Option.some.inj he
        exact ⟨⟨l, flag, hs.addBlock hc hout⟩, .takes hc hout (Function.update_self ..) rfl⟩
      · cases he
    · cases he
  | advance c =>
    obtain ⟨hnext, hgives⟩ := hs.advance hthreads he
    exact ⟨hnext, .advance hgives⟩
  | create c allocated =>
    dsimp only at he
    split at he
    · rename_i hc
      obtain rfl := Option.some.inj he
      cases allocated with
      | true =>
        have hmakes := hs.makes (t := ({ s with created := s.created + 1 } : State κ).give c
            (s.initialBlockPoolSize + s.created)) rfl
          (fun n => by rw [hc]; exact ⟨rfl, rfl, rfl⟩) rfl rfl rfl rfl rfl ?_ ?_ rfl
        · exact ⟨⟨l, flag, hmakes.2⟩,
            .create (.inr ⟨_, hmakes.1, rfl, Function.update_self ..⟩)⟩
        · constructor
          · rintro (⟨hn, -⟩ | ⟨-, hn⟩) <;> omega
          · refine .inr ⟨Nat.le_add_right _ _, ?_⟩
            exact Nat.add_lt_add_left (Nat.lt_succ_self _) _
        · intro n hn
          refine or_congr_right (and_congr_right fun _ => ?_)
          change n < s.initialBlockPoolSize + (s.created + 1) ↔
            n < s.initialBlockPoolSize + s.created
          omega
      | false =>
        exact ⟨⟨l, flag, hs.goto (fun n => by rw [hc]; exact ⟨rfl, rfl, rfl⟩) trivial⟩,
          .create (gives_goto s c (by simp))⟩
    · cases he
  | leave c =>
    dsimp only at he
    split at he
    · rename_i block hc
      obtain rfl := Option.some.inj he
      exact ⟨⟨l, flag, hs.goto (fun n => by rw [hc]; exact ⟨rfl, rfl, rfl⟩) trivial⟩,
        .leave hc (Function.update_self ..) rfl⟩
    · cases he

end Steps

section Runs
variable {κ : Type*} [Fintype κ] {size : ℕ} {l : List ℕ} {flag : ℕ → ℕ} {s : State κ}

theorem inv_start (size : ℕ) : Inv [] (fun _ => 0) (State.start size : State κ) := by
  have hzero : ∀ w : Thread → ℕ, w .idle = 0 → total w (fun _ : κ => .idle) = 0 :=
    fun w hw => total_eq_zero fun _ => hw
  refine ⟨rfl, fun n => ?_, fun n => ?_, fun n => ?_, fun c => trivial, rfl⟩
  · simp [State.start, counted, hzero (Thread.refs n) rfl]
  · have hmade : ¬Made (State.start size : State κ) n := by
      rintro (⟨-, hn⟩ | ⟨hle, hn⟩)
      · exact absurd hn (Nat.not_lt_zero n)
      · exact absurd hn (not_lt.mpr hle)
    rw [if_neg hmade]
    simp [State.start, hzero (Thread.stake n) rfl]
  · exact (hzero (Thread.puts n) rfl).trans due_zero_left.symm

namespace Inv

theorem nodup (hs : Inv l flag s) : l.Nodup := by
  rw [List.nodup_iff_count_le_one]
  intro n
  have hplace := hs.place n
  have hone : (if Made s n then 1 else 0) ≤ 1 := by split <;> omega
  omega

theorem of_mem (hs : Inv l flag s) {n : ℕ} (hn : n ∈ l) : Made s n ∧ s.out n = false := by
  have hplace := hs.place n
  have hpos := List.count_pos_iff.mpr hn
  have hmade : Made s n := by
    by_contra hnot
    rw [if_neg hnot] at hplace
    omega
  refine ⟨hmade, ?_⟩
  by_contra hout
  rw [if_pos hmade, if_pos (Bool.eq_true_of_not_eq_false hout)] at hplace
  omega

theorem of_outside (hs : Inv l flag s)
    (houtside : ∀ c, s.thread c = .idle ∨ ∃ block, s.thread c = .returned block) {n : ℕ}
    (hmade : Made s n) : s.out n = true ∨ n ∈ l := by
  have hzero : ∀ w : Thread → ℕ, w .idle = 0 → (∀ b, w (.returned b) = 0) →
      total w s.thread = 0 := by
    intro w hidle hreturned
    apply total_eq_zero
    intro c
    rcases houtside c with hc | ⟨b, hc⟩
    · rw [hc, hidle]
    · rw [hc, hreturned]
  have hplace := hs.place n
  have hputs := hs.puts n
  rw [hzero (Thread.stake n) rfl fun _ => rfl, if_pos hmade] at hplace
  rw [hzero (Thread.puts n) rfl fun _ => rfl, counted, hzero (Thread.refs n) rfl fun _ => rfl,
    due] at hputs
  by_contra hnot
  obtain ⟨hout, hmem⟩ := not_or.mp hnot
  have hcount := List.count_eq_zero.mpr hmem
  rw [if_neg hout, hcount] at hplace
  rw [hcount, if_pos ⟨by omega, rfl⟩] at hputs
  cases hputs

end Inv

variable [DecidableEq κ] {es : List (Event κ)}

theorem inv_of_run (hthreads : 2 * Fintype.card κ + 2 < shouldBeOnFreeList)
    (hrun : run step (.start size) es = some s) : ∃ l flag, Inv l flag s := by
  refine run_invariant (fun s => ∃ l flag, Inv l flag s) ?_ ⟨_, _, inv_start size⟩ hrun
  rintro s e t ⟨l, flag, hs⟩ he
  exact (hs.step hthreads he).1

/-- Whatever the order of the steps, the assertion of `try_get` holds; the free list is a list
without repetition of blocks that no caller has; a block that is returned was not out; and with no
thread inside, each block there is is out or on the free list. -/
theorem pool_of_run (hthreads : 2 * Fintype.card κ + 2 < shouldBeOnFreeList)
    (hrun : run step (.start size) es = some s) :
    s.fault = false ∧
      (∃ l, Linked s.freeListNext s.freeListHead l ∧ l.Nodup ∧
        (∀ n ∈ l, Made s n ∧ s.out n = false) ∧
        ((∀ c, s.thread c = .idle ∨ ∃ block, s.thread c = .returned block) →
          ∀ n, Made s n → s.out n = true ∨ n ∈ l)) ∧
      ∀ e t c n, step s e = some t → t.thread c = .returned (some n) →
        s.thread c ≠ .returned (some n) → s.out n = false ∧ t.out n = true := by
  obtain ⟨l, flag, hs⟩ := inv_of_run hthreads hrun
  refine ⟨hs.intact, ⟨l, hs.linked, hs.nodup, fun n => hs.of_mem, fun houtside n =>
    hs.of_outside houtside⟩, fun e t c n he hc hnot => ?_⟩
  obtain rfl : c = e.thread := by
    by_contra hne
    exact hnot ((step_frame he hne).symm.trans hc)
  have hgives : ∀ c, Gives s t c → t.thread c = .returned (some n) →
      s.out n = false ∧ t.out n = true := by
    intro c hgives hc
    rcases hgives with ⟨-, hnever⟩ | ⟨m, hout, hnext, hm⟩
    · exact absurd hc (hnever n)
    · obtain rfl := Option.some.inj (Thread.returned.inj (hm.symm.trans hc))
      exact ⟨hout, hnext ▸ Function.update_self ..⟩
  cases (hs.step hthreads he).2 with
  | enter _ ht => cases ht.symm.trans hc
  | takes _ _ ht => cases ht.symm.trans hc
  | advance h => exact hgives _ h hc
  | create h => exact hgives _ h hc
  | leave _ ht => cases ht.symm.trans hc

/-- Two threads want the one block on the list: the slower one gives its reference back and gets a
new block. -/
theorem pool_of_run_two : ∃ s : State (Fin 2), run step (.start 1)
    ([.requisitionBlock 0, .advance 0, .advance 0, .leave 0, .addBlockToFreeList 0 0] ++
      List.replicate 5 (.advance 0) ++ [.requisitionBlock 0, .requisitionBlock 1] ++
      [0, 1, 0, 1, 0, 1, 0, 1, 1, 1, 1, 0, 1, 0, 1, 0, 1, 0].map .advance ++ [.create 1 true]) =
      some s ∧
    s.fault = false ∧ s.thread 0 = .returned (some 0) ∧ s.thread 1 = .returned (some 1) := by
  obtain ⟨s, hs⟩ := Option.isSome_iff_exists.mp (show (run step (.start 1 : State (Fin 2))
    ([.requisitionBlock 0, .advance 0, .advance 0, .leave 0, .addBlockToFreeList 0 0] ++
      List.replicate 5 (.advance 0) ++ [.requisitionBlock 0, .requisitionBlock 1] ++
      [0, 1, 0, 1, 0, 1, 0, 1, 1, 1, 1, 0, 1, 0, 1, 0, 1, 0].map .advance ++
      [.create 1 true])).isSome by decide)
  have hthreads : s.thread 0 = .returned (some 0) ∧ s.thread 1 = .returned (some 1) := by
    obtain rfl := Option.some.inj hs
    exact ⟨rfl, rfl⟩
  exact ⟨s, hs, (pool_of_run (by decide) hs).1, hthreads⟩

end Runs

end BlockPool
end PyCtp
