import PyCtp.Doubles
import Mathlib.Tactic.Ring

/-!
# Reading back a printed double

A printed number is worth its six digits times a power of ten. For a whole number these
digits are the number rounded to six places, so two whole numbers are printed alike if and
only if they round alike.
-/
namespace PyCtp
namespace Double

section Reading

/-- The digits of a mantissa as an integer, in units of `1e-05`. -/
def mantissaValue (s : Text) : ℕ :=
  Nat.ofDigitChars 10 (s.filter (· ≠ '.')) 0 * 10 ^ (5 - (s.dropWhile (· ≠ '.')).tail.length)

/-- The value of a number printed without a sign and without a negative exponent, in units
of `1e-05`. -/
def reading (s : Text) : ℕ :=
  mantissaValue (s.takeWhile (· ≠ 'e')) *
    10 ^ Nat.ofDigitChars 10 (s.dropWhile (· ≠ 'e')).tail.tail 0

variable {whole frac : Text}

theorem ne_of_isDigit {c d : Char} (hc : c.isDigit = true) (hd : d.isDigit = false) : c ≠ d := by
  rintro rfl
  rw [hd] at hc
  cases hc

theorem rdropWhile_zeros (s : Text) :
    ∃ k, s = s.rdropWhile (· = '0') ++ List.replicate k '0' := by
  refine ⟨(s.rtakeWhile (· = '0')).length, ?_⟩
  have hzeros : s.rtakeWhile (· = '0') = List.replicate (s.rtakeWhile (· = '0')).length '0' := by
    refine List.eq_replicate_iff.mpr ⟨rfl, fun c hc => ?_⟩
    simpa using List.mem_rtakeWhile_imp hc
  rw [← hzeros, List.rdropWhile_append_rtakeWhile]

theorem parts_withFraction (hw : ∀ c ∈ whole, c.isDigit = true)
    (hf : ∀ c ∈ frac, c.isDigit = true) :
    (withFraction whole frac).filter (· ≠ '.') = whole ++ frac.rdropWhile (· = '0') ∧
      ((withFraction whole frac).dropWhile (· ≠ '.')).tail = frac.rdropWhile (· = '0') := by
  have hpoint : ∀ {s : Text}, (∀ c ∈ s, c.isDigit = true) → ∀ c ∈ s, decide (c ≠ '.') = true :=
    fun hs c hc => decide_eq_true (ne_of_isDigit (hs c hc) rfl)
  have hr : ∀ c ∈ frac.rdropWhile (· = '0'), c.isDigit = true :=
    fun c hc => hf c ((List.rdropWhile_prefix _ _).subset hc)
  have hwhole : whole.filter (· ≠ '.') = whole := List.filter_eq_self.mpr (hpoint hw)
  rw [withFraction]
  split
  · rename_i hnil
    have hdrop : whole.dropWhile (· ≠ '.') = [] := List.dropWhile_eq_nil_iff.mpr (hpoint hw)
    rw [hnil, hwhole, hdrop, List.append_nil]
    exact ⟨rfl, rfl⟩
  · have hdot : ".".toList = ['.'] := rfl
    have hfrac : (frac.rdropWhile (· = '0')).filter (· ≠ '.') = frac.rdropWhile (· = '0') :=
      List.filter_eq_self.mpr (hpoint hr)
    rw [hdot, List.append_assoc, List.filter_append, List.filter_append, hwhole, hfrac,
      List.dropWhile_append_of_pos (hpoint hw)]
    exact ⟨rfl, rfl⟩

theorem mantissaValue_withFraction (hw : ∀ c ∈ whole, c.isDigit = true)
    (hf : ∀ c ∈ frac, c.isDigit = true) (hlen : frac.length ≤ 5) :
    mantissaValue (withFraction whole frac) =
      Nat.ofDigitChars 10 (whole ++ frac) 0 * 10 ^ (5 - frac.length) := by
  obtain ⟨hfilter, hdrop⟩ := parts_withFraction hw hf
  obtain ⟨k, hk⟩ := rdropWhile_zeros frac
  rw [mantissaValue, hfilter, hdrop]
  generalize frac.rdropWhile (· = '0') = r at hk
  subst hk
  rw [List.length_append, List.length_replicate] at hlen ⊢
  have hvalue : Nat.ofDigitChars 10 (whole ++ (r ++ List.replicate k '0')) 0 =
      Nat.ofDigitChars 10 (whole ++ r) 0 * 10 ^ k := by
    rw [← List.append_assoc, Nat.ofDigitChars_append (l := whole ++ r),
      Nat.ofDigitChars_replicate_zero, Nat.mul_comm]
  have hplaces : 5 - r.length = k + (5 - (r.length + k)) := by omega
  rw [hvalue, hplaces, pow_add, Nat.mul_assoc]

theorem no_exponent_withFraction (hw : ∀ c ∈ whole, c.isDigit = true)
    (hf : ∀ c ∈ frac, c.isDigit = true) :
    ∀ c ∈ withFraction whole frac, decide (c ≠ 'e') = true := by
  have hdigits : ∀ {s : Text}, (∀ c ∈ s, c.isDigit = true) → ∀ c ∈ s, c ≠ 'e' :=
    fun hs c hc => ne_of_isDigit (hs c hc) rfl
  have hr : ∀ c ∈ frac.rdropWhile (· = '0'), c.isDigit = true :=
    fun c hc => hf c ((List.rdropWhile_prefix _ _).subset hc)
  intro c hc
  apply decide_eq_true
  rw [withFraction] at hc
  split at hc
  · exact hdigits hw c hc
  · rcases List.mem_append.mp hc with hc | hc
    · rcases List.mem_append.mp hc with hc | hc
      · exact hdigits hw c hc
      · obtain rfl := List.mem_singleton.mp hc
        decide
    · exact hdigits hr c hc

theorem reading_of_mantissa {s : Text} (h : ∀ c ∈ s, decide (c ≠ 'e') = true) :
    reading s = mantissaValue s := by
  rw [reading, List.takeWhile_eq_self_iff.mpr h, List.dropWhile_eq_nil_iff.mpr h]
  exact Nat.mul_one _

theorem reading_of_exponent {s : Text} (h : ∀ c ∈ s, decide (c ≠ 'e') = true) (sign : Char)
    (t : Text) :
    reading (s ++ 'e' :: sign :: t) = mantissaValue s * 10 ^ Nat.ofDigitChars 10 t 0 := by
  rw [reading, List.takeWhile_append_of_pos h, List.dropWhile_append_of_pos h,
    List.takeWhile_cons_of_neg (by simp), List.dropWhile_cons_of_neg (by simp), List.append_nil]
  rfl

theorem length_toDigits {m : ℕ} (hm : 10 ^ 5 ≤ m) (hm' : m < 10 ^ 6) :
    (Nat.toDigits 10 m).length = 6 := by
  have hle := (Nat.length_toDigits_le_iff (b := 10) (n := m) (k := 6) (by omega) (by omega)).mpr hm'
  have hgt : ¬(Nat.toDigits 10 m).length ≤ 5 := fun h =>
    absurd ((Nat.length_toDigits_le_iff (by omega) (by omega)).mp h) (not_lt.mpr hm)
  omega

theorem reading_general {m : ℕ} (hm : 10 ^ 5 ≤ m) (hm' : m < 10 ^ 6) {x : ℤ} (hx : 0 ≤ x) :
    reading (general m x) = m * 10 ^ x.toNat := by
  have hlen := length_toDigits hm hm'
  have hdigits : ∀ c ∈ Nat.toDigits 10 m, c.isDigit = true :=
    fun c hc => Nat.isDigit_of_mem_toDigits (by omega) (by omega) hc
  have htake : ∀ k, ∀ c ∈ (Nat.toDigits 10 m).take k, c.isDigit = true :=
    fun k c hc => hdigits c (List.take_subset k _ hc)
  have hdrop : ∀ k, ∀ c ∈ (Nat.toDigits 10 m).drop k, c.isDigit = true :=
    fun k c hc => hdigits c (List.drop_subset k _ hc)
  have hvalue : ∀ k, 0 < k → k ≤ 6 →
      mantissaValue (withFraction ((Nat.toDigits 10 m).take k) ((Nat.toDigits 10 m).drop k)) =
        m * 10 ^ (k - 1) := by
    intro k hk hk'
    have hfrac : ((Nat.toDigits 10 m).drop k).length = 6 - k := by rw [List.length_drop, hlen]
    rw [mantissaValue_withFraction (htake k) (hdrop k) (by omega), List.take_append_drop,
      Nat.ofDigitChars_ten_toDigits, hfrac]
    congr 2
    omega
  rw [general]
  by_cases hsci : 6 ≤ x
  · have hplus : (if x < 0 then "-" else "+").toList = ['+'] := by rw [if_neg (not_lt.mpr hx)]; rfl
    have hexp : x.natAbs = x.toNat := by omega
    have htext : ∀ t es : Text,
        t ++ "e".toList ++ ['+'] ++ List.replicate (2 - es.length) '0' ++ es =
          t ++ 'e' :: '+' :: (List.replicate (2 - es.length) '0' ++ es) := by
      intro t es
      simp
    rw [if_pos (Or.inr hsci), hplus, htext,
      reading_of_exponent (no_exponent_withFraction (htake 1) (hdrop 1)), hvalue 1 (by omega)
      (by omega), Nat.ofDigitChars_append, Nat.ofDigitChars_replicate_zero, Nat.mul_zero,
      Nat.ofDigitChars_ten_toDigits, hexp]
    simp
  · rw [if_neg (by omega), if_neg (by omega),
      reading_of_mantissa (no_exponent_withFraction (htake _) (hdrop _)),
      hvalue (x.toNat + 1) (by omega) (by omega)]
    rfl

end Reading

section Rounding

theorem roundDiv_mul (n d : ℕ) {k : ℕ} (hk : 0 < k) : roundDiv (n * k) (d * k) = roundDiv n d := by
  simp only [roundDiv, Nat.mul_div_mul_right n d hk, Nat.mul_mod_mul_right, ← Nat.mul_assoc]
  simp only [Nat.mul_lt_mul_right hk]

theorem roundDiv_one (n : ℕ) : roundDiv n 1 = n := by
  simp [roundDiv, Nat.mod_one]

theorem div_le_roundDiv (n d : ℕ) : n / d ≤ roundDiv n d := by
  rw [roundDiv]
  split_ifs <;> omega

theorem roundDiv_le (n d : ℕ) : roundDiv n d ≤ n / d + 1 := by
  rw [roundDiv]
  split_ifs <;> omega

/-- A number rounded to its six highest decimal places. -/
def sixDigits (n : ℕ) : ℕ :=
  roundDiv n (10 ^ (Nat.log 10 n - 5)) * 10 ^ (Nat.log 10 n - 5)

theorem decimalDigits_mul {n k : ℕ} (hn : 0 < n) (hk : 0 < k) :
    decimalDigits (n * k) k = decimalDigits n 1 := by
  have hexp : decimalExponent (n * k) k = decimalExponent n 1 := by
    have hle : k ≤ n * k := Nat.le_mul_of_pos_left k hn
    have hone : 1 ≤ n := hn
    rw [decimalExponent, decimalExponent, if_pos hle, if_pos hone, Nat.mul_div_cancel n hk,
      Nat.div_one]
  have hround : ∀ a b, roundDiv (n * k * a) (k * b) = roundDiv (n * a) (1 * b) := by
    intro a b
    have hnum : n * k * a = n * a * k := by ring
    have hden : k * b = 1 * b * k := by ring
    rw [hnum, hden, roundDiv_mul _ _ hk]
  simp only [decimalDigits, hexp, hround]

theorem roundDiv_whole {n : ℕ} (hn : 0 < n) :
    10 ^ 5 ≤ roundDiv (n * 10 ^ (5 - Nat.log 10 n)) (10 ^ (Nat.log 10 n - 5)) ∧
      roundDiv (n * 10 ^ (5 - Nat.log 10 n)) (10 ^ (Nat.log 10 n - 5)) ≤ 10 ^ 6 ∧
      roundDiv (n * 10 ^ (5 - Nat.log 10 n)) (10 ^ (Nat.log 10 n - 5)) * 10 ^ Nat.log 10 n =
        sixDigits n * 10 ^ 5 := by
  have hlow : 10 ^ Nat.log 10 n ≤ n := Nat.pow_log_le_self 10 hn.ne'
  have hhigh : n < 10 ^ (Nat.log 10 n + 1) := Nat.lt_pow_succ_log_self (by omega) n
  rw [sixDigits]
  generalize Nat.log 10 n = k at hlow hhigh
  rcases Nat.le_total k 5 with hk | hk
  · obtain ⟨j, hj⟩ := Nat.exists_eq_add_of_le hk
    have hfive : 10 ^ 5 = 10 ^ k * 10 ^ j := by rw [hj, pow_add]
    have hsix : 10 ^ 6 = 10 ^ (k + 1) * 10 ^ j := by rw [← pow_add, show k + 1 + j = 6 by omega]
    have hscale : 5 - k = j := by omega
    have hzero : k - 5 = 0 := by omega
    rw [hzero, hscale, pow_zero, roundDiv_one, roundDiv_one, hfive, hsix]
    refine ⟨Nat.mul_le_mul_right _ hlow, Nat.mul_le_mul_right _ hhigh.le, ?_⟩
    ring
  · obtain ⟨j, rfl⟩ := Nat.exists_eq_add_of_le hk
    have hunit : 0 < 10 ^ j := by positivity
    have hdiv : 10 ^ 5 ≤ n / 10 ^ j := (Nat.le_div_iff_mul_le hunit).mpr (by rwa [← pow_add])
    have hdiv' : n / 10 ^ j < 10 ^ 6 := by
      apply (Nat.div_lt_iff_lt_mul hunit).mpr
      rwa [← pow_add, show 6 + j = 5 + j + 1 by omega]
    have hge := div_le_roundDiv n (10 ^ j)
    have hle := roundDiv_le n (10 ^ j)
    have hzero : 5 - (5 + j) = 0 := by omega
    rw [hzero, pow_zero, Nat.mul_one, Nat.add_sub_cancel_left]
    refine ⟨hdiv.trans hge, by omega, ?_⟩
    rw [pow_add]
    ring

theorem decimalDigits_whole {n : ℕ} (hn : 0 < n) :
    10 ^ 5 ≤ (decimalDigits n 1).1 ∧ (decimalDigits n 1).1 < 10 ^ 6 ∧ 0 ≤ (decimalDigits n 1).2 ∧
      (decimalDigits n 1).1 * 10 ^ (decimalDigits n 1).2.toNat = sixDigits n * 10 ^ 5 := by
  obtain ⟨hge, hle, hvalue⟩ := roundDiv_whole hn
  have hone : 1 ≤ n := hn
  have hexp : decimalExponent n 1 = (Nat.log 10 n : ℤ) := by
    rw [decimalExponent, if_pos hone, Nat.div_one]
  have hdown : (5 - (Nat.log 10 n : ℤ)).toNat = 5 - Nat.log 10 n := by omega
  have hup : ((Nat.log 10 n : ℤ) - 5).toNat = Nat.log 10 n - 5 := by omega
  simp only [decimalDigits, hexp, hdown, hup, Nat.one_mul]
  generalize roundDiv (n * 10 ^ (5 - Nat.log 10 n)) (10 ^ (Nat.log 10 n - 5)) = m at hge hle hvalue
  split_ifs with hcarry
  · refine ⟨le_rfl, by omega, by omega, ?_⟩
    have hsucc : ((Nat.log 10 n : ℤ) + 1).toNat = Nat.log 10 n + 1 := by omega
    rw [← hvalue, hcarry, hsucc, pow_succ]
    ring
  · exact ⟨hge, by omega, by omega, hvalue⟩

theorem sixDigits_pos {n : ℕ} (hn : 0 < n) : 0 < sixDigits n := by
  obtain ⟨hge, -, -, hvalue⟩ := decimalDigits_whole hn
  have hpos : 0 < (decimalDigits n 1).1 * 10 ^ (decimalDigits n 1).2.toNat :=
    Nat.mul_pos (by omega) (by positivity)
  omega

theorem sixDigits_le (n : ℕ) : sixDigits n ≤ 2 * n := by
  rcases Nat.eq_zero_or_pos n with rfl | hn
  · simp [sixDigits, roundDiv_one]
  · have hunit : 10 ^ (Nat.log 10 n - 5) ≤ n :=
      (Nat.pow_le_pow_right (by omega) (Nat.sub_le _ _)).trans (Nat.pow_log_le_self 10 hn.ne')
    have hround := Nat.mul_le_mul_right (10 ^ (Nat.log 10 n - 5))
      (roundDiv_le n (10 ^ (Nat.log 10 n - 5)))
    have hdiv := Nat.div_mul_le_self n (10 ^ (Nat.log 10 n - 5))
    rw [Nat.succ_mul] at hround
    rw [sixDigits]
    omega

/-- Six digits and an exponent are determined by their value. -/
theorem digits_unique {m k : ℕ} (hm : 10 ^ 5 ≤ m ∧ m < 10 ^ 6) (hk : 10 ^ 5 ≤ k ∧ k < 10 ^ 6)
    {x y : ℕ} (h : m * 10 ^ x = k * 10 ^ y) : m = k ∧ x = y := by
  have hlt : ∀ {m k x y : ℕ}, m < 10 ^ 6 → 10 ^ 5 ≤ k → x < y → m * 10 ^ x < k * 10 ^ y := by
    intro m k x y hm hk hxy
    calc m * 10 ^ x < 10 ^ 6 * 10 ^ x := Nat.mul_lt_mul_of_pos_right hm (by positivity)
      _ = 10 ^ 5 * 10 ^ (x + 1) := by ring
      _ ≤ k * 10 ^ y := Nat.mul_le_mul hk (Nat.pow_le_pow_right (by omega) hxy)
  rcases Nat.lt_trichotomy x y with hxy | rfl | hxy
  · exact absurd h (hlt hm.2 hk.1 hxy).ne
  · exact ⟨Nat.eq_of_mul_eq_mul_right (by positivity) h, rfl⟩
  · exact absurd h (hlt hk.2 hm.1 hxy).ne'

end Rounding

section Whole

/-- The double, without a sign, has a whole number as its value. -/
structure IsNat (d : Double) (n : ℕ) : Prop where
  negative : d.negative = false
  finite : d.exponent < 2047
  ratio : d.ratio.1 = n * d.ratio.2

variable {d e : Double} {n k : ℕ}

theorem IsNat.print (h : d.IsNat n) : d.print =
    if n = 0 then "0".toList else general (decimalDigits n 1).1 (decimalDigits n 1).2 := by
  have hden : 0 < d.ratio.2 := Nat.two_pow_pos _
  have hsig : d.significand = 0 ↔ n = 0 := by
    have hpow : 0 < 2 ^ (max d.exponent 1 - 1075) := Nat.two_pow_pos _
    have hnum : d.significand * 2 ^ (max d.exponent 1 - 1075) = n * d.ratio.2 := h.ratio
    constructor
    · intro hzero
      rw [hzero, Nat.zero_mul] at hnum
      exact (Nat.mul_eq_zero.mp hnum.symm).resolve_right hden.ne'
    · intro hzero
      rw [hzero, Nat.zero_mul] at hnum
      exact (Nat.mul_eq_zero.mp hnum).resolve_right hpow.ne'
  have hsign : (if d.negative then "-" else "").toList = [] := by rw [h.negative]; rfl
  rw [Double.print, hsign, List.nil_append, if_neg h.finite.ne, h.ratio]
  by_cases hn : n = 0
  · rw [if_pos hn, if_pos (hsig.mpr hn)]
  · rw [if_neg hn, if_neg (fun hs => hn (hsig.mp hs))]
    rw [decimalDigits_mul (Nat.pos_of_ne_zero hn) hden]

theorem IsNat.reading_print (h : d.IsNat n) : reading d.print = sixDigits n * 10 ^ 5 := by
  rw [h.print]
  rcases Nat.eq_zero_or_pos n with rfl | hn
  · decide
  · obtain ⟨hge, hlt, hexp, hvalue⟩ := decimalDigits_whole hn
    rw [if_neg hn.ne', reading_general hge hlt hexp, hvalue]

/-- Whole numbers are printed alike if and only if they agree in six digits. -/
theorem IsNat.print_eq_iff (hd : d.IsNat n) (he : e.IsNat k) :
    d.print = e.print ↔ sixDigits n = sixDigits k := by
  constructor
  · intro h
    have hread := congrArg reading h
    rw [hd.reading_print, he.reading_print] at hread
    exact Nat.eq_of_mul_eq_mul_right (by positivity) hread
  · intro h
    rw [hd.print, he.print]
    rcases Nat.eq_zero_or_pos n with rfl | hn
    · rcases Nat.eq_zero_or_pos k with rfl | hk
      · rfl
      · exact absurd h (sixDigits_pos hk).ne
    · rcases Nat.eq_zero_or_pos k with rfl | hk
      · exact absurd h (sixDigits_pos hn).ne'
      · obtain ⟨hge, hlt, hexp, hvalue⟩ := decimalDigits_whole hn
        obtain ⟨hge', hlt', hexp', hvalue'⟩ := decimalDigits_whole hk
        have hsame := hvalue.trans ((congrArg (· * 10 ^ 5) h).trans hvalue'.symm)
        obtain ⟨hm, hx⟩ := digits_unique ⟨hge, hlt⟩ ⟨hge', hlt'⟩ hsame
        have hx' : (decimalDigits n 1).2 = (decimalDigits k 1).2 := by omega
        rw [if_neg hn.ne', if_neg hk.ne', hm, hx']

theorem isNat_dblMax : dblMax.IsNat (2 ^ 1024 - 2 ^ 971) := by
  constructor <;> decide +kernel

theorem isNat_zero : zero.IsNat 0 := by
  constructor <;> decide +kernel

theorem IsNat.print_ne_dblMax (h : d.IsNat n) (hn : n < 2 ^ 53) : d.print ≠ dblMax.print := by
  intro heq
  have hsix := (h.print_eq_iff isNat_dblMax).mp heq
  have hle := sixDigits_le n
  have hbig : 2 ^ 54 ≤ sixDigits (2 ^ 1024 - 2 ^ 971) := by decide +kernel
  omega

end Whole
end Double

theorem toDigits_injective {n k : ℕ} (h : Nat.toDigits 10 n = Nat.toDigits 10 k) : n = k := by
  have hread := congrArg (fun s => Nat.ofDigitChars 10 s 0) h
  simpa using hread

theorem printInt_injective {i j : ℤ} (h : printInt i = printInt j) : i = j := by
  have hdash : ∀ {n : ℕ} {s : Text}, '-' :: s ≠ Nat.toDigits 10 n := fun {n s} hs => by
    have hmem : '-' ∈ Nat.toDigits 10 n := hs ▸ List.mem_cons_self
    exact absurd (Nat.isDigit_of_mem_toDigits (by omega) (by omega) hmem) (by decide)
  rw [printInt, printInt] at h
  split_ifs at h with hi hj hj
  · have habs := toDigits_injective (List.cons.inj h).2
    omega
  · exact absurd h hdash
  · exact absurd h.symm hdash
  · have habs := toDigits_injective h
    omega

end PyCtp
