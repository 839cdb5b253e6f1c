import Mathlib.Data.Int.ModEq
import Mathlib.Data.Nat.ModEq
import Mathlib.Tactic.Ring

/-!
# Positions in a circular buffer

A buffer of a given capacity holds the item of number `n` at the position that is congruent to
`n` from the first number on. A position can be told from that of another number by the distance
of the two, also where the numbers are known modulo a multiple of the capacity only.
-/
namespace PyCtp.CircularPositions

/-- The position of a number where the given first one has position zero. -/
def position (capacity first n : ℕ) : ℕ := (n + first * (capacity - 1)) % capacity

variable {capacity first n m p : ℕ}

theorem position_lt (hpos : 0 < capacity) : position capacity first n < capacity :=
  Nat.mod_lt _ hpos

theorem position_add (hpos : 0 < capacity) :
    position capacity first n + first ≡ n [MOD capacity] := by
  obtain ⟨c, rfl⟩ : ∃ c, capacity = c + 1 := ⟨capacity - 1, by omega⟩
  have hmod : position (c + 1) first n ≡ n + first * c [MOD c + 1] := Nat.mod_modEq _ _
  calc position (c + 1) first n + first
      ≡ n + first * c + first [MOD c + 1] := hmod.add_right first
    _ = n + first * (c + 1) := by ring
    _ ≡ n + 0 [MOD c + 1] := (Nat.modEq_zero_iff_dvd.mpr ⟨first, by ring⟩).add_left n

theorem eq_position (hlt : p < capacity) (h : p + first ≡ n [MOD capacity]) :
    p = position capacity first n := by
  have hpos : 0 < capacity := by omega
  have hsame : p ≡ position capacity first n [MOD capacity] :=
    Nat.ModEq.add_right_cancel' first (h.trans (position_add hpos).symm)
  exact hsame.eq_of_lt_of_lt hlt (position_lt hpos)

theorem position_congr (h : n ≡ m [MOD capacity]) :
    position capacity first n = position capacity first m := h.add_right _

theorem position_add_first (hlt : p < capacity) : position capacity first (p + first) = p :=
  (eq_position hlt rfl).symm

theorem position_succ (hpos : 0 < capacity) :
    (position capacity first n + 1) % capacity = position capacity first (n + 1) := by
  apply eq_position (Nat.mod_lt _ hpos)
  calc (position capacity first n + 1) % capacity + first
      ≡ position capacity first n + 1 + first [MOD capacity] := (Nat.mod_modEq _ _).add_right first
    _ = position capacity first n + first + 1 := by ring
    _ ≡ n + 1 [MOD capacity] := (position_add hpos).add_right 1

theorem add_mod_eq_position {p d : ℕ} (hpos : 0 < capacity)
    (hp : p + first ≡ m [MOD capacity]) (hd : (d : ℤ) ≡ (n : ℤ) - m [ZMOD capacity]) :
    (p + d) % capacity = position capacity first n := by
  apply eq_position (Nat.mod_lt _ hpos)
  refine ((Nat.mod_modEq _ _).add_right first).trans ?_
  rw [← Int.natCast_modEq_iff]
  have hp' : (p : ℤ) + first ≡ m [ZMOD capacity] := by
    exact_mod_cast Int.natCast_modEq_iff.mpr hp
  calc ((p + d + first : ℕ) : ℤ)
      = (p + first) + d := by push_cast; ring
    _ ≡ m + (n - m) [ZMOD capacity] := hp'.add hd
    _ = n := by ring

end PyCtp.CircularPositions
