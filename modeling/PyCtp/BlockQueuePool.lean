import PyCtp.BlockQueueRuns
import Mathlib.Data.Set.Card
import Mathlib.Data.Set.Finite.Range
import Mathlib.Order.Interval.Finset.Nat

/-!
# The pool of blocks

The pool has given out one block for each block of the queue in use, one to a producer that is
about to enter it in the index, and one to each consumer that is giving one back: no block has two
owners, and none is lost.
-/
namespace PyCtp
open LabelledRuns Tallies

namespace BlockQueue
open ProducerQueue (blockSize)

section Pool
variable {κ δ : Type*} [Fintype κ] {width : ℕ} {first cls : ℕ → ℕ} {b : ℕ} {s : State κ δ}

def Insertion.pending : Insertion δ → ℕ
  | .placing .. => 1
  | _ => 0

def Reader.ending : Reader → ℕ
  | .last .. | .freeing _ => 1
  | _ => 0

/-- Who has a block: a number of the queue through the entry with its key, the producer, or a
consumer. -/
def Has (s : State κ δ) : Owner κ → ℕ → Prop
  | .block n, nb => Live s n ∧
      ∃ e < s.index.entryCount, s.index.entry e = ⟨some (blockSize * n), some nb⟩
  | .producer, nb => ∃ x e, s.insertion = .placing x e nb
  | .consumer c, nb => (∃ e, s.reader c = .last e nb) ∨ s.reader c = .freeing nb

omit [Fintype κ] in
theorem owns_inj {o : Owner κ} {nb nb' : ℕ} (h : Owns first b s o nb)
    (h' : Owns first b s o nb') : nb = nb' := by
  cases o with
  | block n => exact Option.some.inj (h.2.symm.trans h'.2)
  | producer =>
    obtain ⟨x, e, hi⟩ := h
    obtain ⟨x', e', hi'⟩ := h'
    exact (Insertion.placing.inj (hi.symm.trans hi')).2.2
  | consumer c =>
    rcases h with ⟨e, hr⟩ | hr <;> rcases h' with ⟨e', hr'⟩ | hr' <;> rw [hr] at hr'
    · exact (Reader.last.inj hr').2
    · cases hr'
    · cases hr'
    · exact Reader.freeing.inj hr'

namespace Inv

theorem has_iff (hs : Inv width first cls b s) {o : Owner κ} {nb : ℕ} :
    Has s o nb ↔ Owns first b s o nb := by
  cases o with
  | block n =>
    refine and_congr_right fun hlive => ⟨?_, fun hvalue => ?_⟩
    · rintro ⟨e, he, heq⟩
      rw [← hs.index.eq_slot he (by rw [heq]), heq]
    · exact ⟨_, hs.index.slot_lt b le_rfl n, by rw [← (hs.live n hlive).1, ← hvalue]⟩
  | producer => exact Iff.rfl
  | consumer c => exact Iff.rfl

theorem owners (hs : Inv width first cls b s) :
    (∀ nb, s.owned nb = true → ∃! o, Has s o nb) ∧
      (∀ o nb, Has s o nb → s.owned nb = true ∧ ∀ nb', Has s o nb' → nb' = nb) ∧
      ∀ n, Live s n → ∃ nb, Has s (.block n) nb := by
  simp only [hs.has_iff]
  refine ⟨fun nb hnb => ?_, fun o nb ho => ?_, fun n hlive => hs.block hlive⟩
  · obtain ⟨o, ho⟩ := hs.kept nb hnb
    exact ⟨o, ho, fun o' ho' => hs.unique o' o nb ho' ho⟩
  · exact ⟨hs.owned o nb ho, fun nb' ho' => owns_inj ho' ho⟩

end Inv

end Pool

section Runs
variable {κ δ : Type*} [Fintype κ] [DecidableEq κ] {width : ℕ} {memory : Bool}
  {header : ℕ → BlockIndex.BlockIndexHeader} {entry : ℕ → BlockIndex.BlockIndexEntry}
  {block : ℕ → Block δ} {es : List (Event κ δ)} {s : State κ δ}

end Runs

end BlockQueue
end PyCtp
