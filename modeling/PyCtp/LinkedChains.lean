import Mathlib.Data.List.Basic
import Mathlib.Logic.Function.Basic

/-!
# Linked lists in memory

A head and a next node for each node; the list of the nodes that are reached from the head.
-/
namespace PyCtp.LinkedChains

variable {α : Type*} {next next' : α → Option α} {head : Option α} {a : α} {l l' : List α}

/-- Following `next` from the head one passes the given nodes, and no others. -/
def Linked (next : α → Option α) : Option α → List α → Prop
  | head, [] => head = none
  | head, a :: l => head = some a ∧ Linked next (next a) l

@[simp] theorem linked_nil : Linked next head [] ↔ head = none := Iff.rfl

@[simp] theorem linked_cons : Linked next head (a :: l) ↔ head = some a ∧ Linked next (next a) l :=
  Iff.rfl

theorem Linked.eq_cons (h : Linked next (some a) l) :
    ∃ l', l = a :: l' ∧ Linked next (next a) l' := by
  cases l with
  | nil => cases linked_nil.mp h
  | cons b l =>
    obtain rfl := Option.some.inj h.1
    exact ⟨l, rfl, h.2⟩

theorem Linked.congr (h : Linked next head l) (hnext : ∀ b ∈ l, next' b = next b) :
    Linked next' head l := by
  induction l generalizing head with
  | nil => exact h
  | cons a l ih =>
    refine ⟨h.1, ?_⟩
    rw [hnext a List.mem_cons_self]
    exact ih h.2 fun b hb => hnext b (List.mem_cons_of_mem a hb)

theorem Linked.update [DecidableEq α] (h : Linked next head l) (ha : a ∉ l) (b : Option α) :
    Linked (Function.update next a b) head l := by
  apply h.congr
  intro c hc
  have hca : c ≠ a := by
    rintro rfl
    exact ha hc
  exact Function.update_of_ne hca _ _

end PyCtp.LinkedChains
