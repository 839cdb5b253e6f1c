import PyCtp.Config
import Mathlib.Data.Nat.Log

/-!
# Double precision numbers and how a stream prints them

A `double` is its 64 bits. `print` is `operator<<` with the default format: six
significant digits, the shorter of the fixed and the scientific notation, no trailing
zeros. All arithmetic is on the exact ratio the bits stand for.
-/
namespace PyCtp

structure Double where
  bits : BitVec 64
  deriving DecidableEq, Repr

namespace Double

def zero : Double := ⟨0⟩

def dblMax : Double := ⟨0x7FEFFFFFFFFFFFFF⟩

def negative (d : Double) : Bool := d.bits.msb

def exponent (d : Double) : ℕ := (d.bits.extractLsb' 52 11).toNat

def fraction (d : Double) : ℕ := (d.bits.extractLsb' 0 52).toNat

/-- The fraction with the bit that normal numbers leave out. -/
def significand (d : Double) : ℕ :=
  if d.exponent = 0 then d.fraction else 2 ^ 52 + d.fraction

/-- Numerator and denominator of the magnitude of a finite double. -/
def ratio (d : Double) : ℕ × ℕ :=
  let e := max d.exponent 1
  (d.significand * 2 ^ (e - 1075), 2 ^ (1075 - e))

/-- The quotient rounded to the nearest integer, halves to the even one. -/
def roundDiv (n d : ℕ) : ℕ :=
  let q := n / d
  let r := n % d
  if 2 * r < d then q else if d < 2 * r then q + 1 else q + q % 2

/-- The exponent of the largest power of ten not above `n / d`. -/
def decimalExponent (n d : ℕ) : ℤ :=
  if d ≤ n then Nat.log 10 (n / d) else -(Nat.clog 10 ((d + n - 1) / n) : ℤ)

/-- The six significant digits of `n / d` as an integer, and the exponent of the first. -/
def decimalDigits (n d : ℕ) : ℕ × ℤ :=
  let x := decimalExponent n d
  let m := roundDiv (n * 10 ^ (5 - x).toNat) (d * 10 ^ (x - 5).toNat)
  if m = 10 ^ 6 then (10 ^ 5, x + 1) else (m, x)

def withFraction (whole frac : Text) : Text :=
  let frac := frac.rdropWhile (· = '0')
  if frac = [] then whole else whole ++ ".".toList ++ frac

/-- The text of six digits with the given exponent: scientific below `1e-04` and from
`1e+06` on, fixed between. -/
def general (m : ℕ) (x : ℤ) : Text :=
  let ds := Nat.toDigits 10 m
  if x < -4 ∨ 6 ≤ x then
    let es := Nat.toDigits 10 x.natAbs
    withFraction (ds.take 1) (ds.drop 1) ++ "e".toList ++ (if x < 0 then "-" else "+").toList ++
      List.replicate (2 - es.length) '0' ++ es
  else if x < 0 then withFraction "0".toList (List.replicate (-x - 1).toNat '0' ++ ds)
  else withFraction (ds.take (x.toNat + 1)) (ds.drop (x.toNat + 1))

def special (d : Double) : Text :=
  if d.fraction = 0 then "inf".toList
  else if d.negative ∧ d.fraction = 2 ^ 51 then "nan(ind)".toList
  else if d.fraction < 2 ^ 51 then "nan(snan)".toList
  else "nan".toList

def print (d : Double) : Text :=
  (if d.negative then "-" else "").toList ++
    if d.exponent = 2047 then d.special
    else if d.significand = 0 then "0".toList
    else
      let digits := decimalDigits d.ratio.1 d.ratio.2
      general digits.1 digits.2

/-- The turnover of a recorded tick, 40839500. -/
example : print ⟨0x4183794a60000000⟩ = "4.08395e+07".toList := by decide

/-- The macro `DBLMXTZERO`: the marker of a missing value becomes zero. -/
def dblmxtzero (x : Double) : Double := if x = dblMax then zero else x

end Double

def printInt (i : ℤ) : Text :=
  (if i < 0 then "-" else "").toList ++ Nat.toDigits 10 i.natAbs

/-- A text that fits in one cell of a line of comma-separated values. -/
def OneCell (s : Text) : Prop := ',' ∉ s ∧ '\n' ∉ s

instance : DecidablePred OneCell := fun _ => inferInstanceAs (Decidable (_ ∧ _))

section OneCell

theorem oneCell_append {s t : Text} : OneCell (s ++ t) ↔ OneCell s ∧ OneCell t := by
  simp only [OneCell, List.mem_append, not_or]
  tauto

theorem OneCell.mono {s t : Text} (h : OneCell t) (hst : s ⊆ t) : OneCell s :=
  ⟨fun hc => h.1 (hst hc), fun hc => h.2 (hst hc)⟩

theorem oneCell_of_isDigit {s : Text} (h : ∀ c ∈ s, c.isDigit = true) : OneCell s :=
  ⟨fun hc => absurd (h _ hc) (by decide), fun hc => absurd (h _ hc) (by decide)⟩

theorem oneCell_toDigits (n : ℕ) : OneCell (Nat.toDigits 10 n) :=
  oneCell_of_isDigit fun _ hc => Nat.isDigit_of_mem_toDigits (by omega) (by omega) hc

theorem oneCell_zeros (n : ℕ) : OneCell (List.replicate n '0') :=
  oneCell_of_isDigit fun c hc => by
    rw [List.eq_of_mem_replicate hc]
    rfl

theorem oneCell_sign (p : Prop) [Decidable p] (s t : String) (hs : OneCell s.toList)
    (ht : OneCell t.toList) : OneCell (if p then s else t).toList := by
  split
  · exact hs
  · exact ht

theorem oneCell_withFraction {whole frac : Text} (hw : OneCell whole) (hf : OneCell frac) :
    OneCell (Double.withFraction whole frac) := by
  have hr : OneCell (frac.rdropWhile (· = '0')) :=
    hf.mono (List.rdropWhile_prefix _ _).subset
  unfold Double.withFraction
  dsimp only
  split
  · exact hw
  · exact oneCell_append.mpr ⟨oneCell_append.mpr ⟨hw, by simp [OneCell]⟩, hr⟩

theorem oneCell_general (m : ℕ) (x : ℤ) : OneCell (Double.general m x) := by
  have hds := oneCell_toDigits m
  have htake : ∀ k, OneCell ((Nat.toDigits 10 m).take k) := fun k =>
    hds.mono (List.take_subset k _)
  have hdrop : ∀ k, OneCell ((Nat.toDigits 10 m).drop k) := fun k =>
    hds.mono (List.drop_subset k _)
  have hsign : OneCell (if x < 0 then "-" else "+").toList :=
    oneCell_sign _ _ _ (by simp [OneCell]) (by simp [OneCell])
  rw [Double.general]
  dsimp only
  split
  · simp only [oneCell_append]
    exact ⟨⟨⟨⟨oneCell_withFraction (htake 1) (hdrop 1), by simp [OneCell]⟩, hsign⟩,
      oneCell_zeros _⟩, oneCell_toDigits _⟩
  · split
    · exact oneCell_withFraction (by simp [OneCell])
        (oneCell_append.mpr ⟨oneCell_zeros _, hds⟩)
    · exact oneCell_withFraction (htake _) (hdrop _)

theorem Double.oneCell_print (d : Double) : OneCell d.print := by
  refine oneCell_append.mpr
    ⟨oneCell_sign _ _ _ (by simp [OneCell]) (by simp [OneCell]), ?_⟩
  split
  · rw [Double.special]
    split_ifs <;> simp [OneCell]
  · split
    · simp [OneCell]
    · exact oneCell_general _ _

theorem oneCell_printInt (i : ℤ) : OneCell (printInt i) :=
  oneCell_append.mpr ⟨oneCell_sign _ _ _ (by simp [OneCell]) (by simp [OneCell]),
    oneCell_toDigits _⟩

end OneCell

end PyCtp
