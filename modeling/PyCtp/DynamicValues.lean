import Mathlib.Tactic.Common

/-!
# Values of dynamic type

A container that holds a value of any of a family of types, or nothing. Reading it
back names the type expected and fails on every other one.
-/
namespace PyCtp

inductive Any {ι : Type*} (El : ι → Type*)
  | empty
  | hold (i : ι) (v : El i)

namespace Any
variable {ι : Type*} {El : ι → Type*} [DecidableEq ι]

/-- The value held, if it is of exactly the type named by `i`. -/
def cast (i : ι) : Any El → Option (El i)
  | empty => none
  | hold j v => if h : j = i then some (h ▸ v) else none

@[simp] theorem cast_empty (i : ι) : (empty : Any El).cast i = none := rfl

@[simp] theorem cast_hold (i : ι) (v : El i) : (hold i v).cast i = some v := by simp [cast]

end Any
end PyCtp
