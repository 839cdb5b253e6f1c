import PyCtp.DoublePrinting
import PyCtp.TickColumns

/-!
# What a row tells about its record

A row shows the six highest digits of every number. Two records with the same row can
therefore differ, and the three members that keep the marker of a missing value show it
where the others show a zero.
-/
namespace PyCtp
open Double

namespace Double

/-- The marker of a missing value, or a whole number that a double holds exactly. -/
def Whole (d : Double) : Prop := d = dblMax ∨ ∃ n < 2 ^ 53, d.IsNat n

/-- Two markers, or two numbers that agree in six digits. -/
def SameSix (d e : Double) : Prop :=
  (d = dblMax ∧ e = dblMax) ∨
    ∃ n < 2 ^ 53, ∃ k < 2 ^ 53, d.IsNat n ∧ e.IsNat k ∧ sixDigits n = sixDigits k

variable {d e : Double}

theorem Whole.dblmxtzero (h : d.Whole) : d.dblmxtzero.Whole := by
  rw [Double.dblmxtzero]
  split
  · exact .inr ⟨0, by omega, isNat_zero⟩
  · exact h

theorem print_eq_iff_sameSix (hd : d.Whole) (he : e.Whole) :
    d.print = e.print ↔ d.SameSix e := by
  constructor
  · intro h
    rcases hd with rfl | ⟨n, hn, hd⟩
    · rcases he with rfl | ⟨k, hk, he⟩
      · exact .inl ⟨rfl, rfl⟩
      · exact absurd h.symm (he.print_ne_dblMax hk)
    · rcases he with rfl | ⟨k, hk, he⟩
      · exact absurd h (hd.print_ne_dblMax hn)
      · exact .inr ⟨n, hn, k, hk, hd, he, (hd.print_eq_iff he).mp h⟩
  · rintro (⟨rfl, rfl⟩ | ⟨n, -, k, -, hd, he, hsix⟩)
    · rfl
    · exact (hd.print_eq_iff he).mpr hsix

theorem not_sameSix_marker : ¬dblMax.SameSix zero := by
  intro h
  have hprint := (print_eq_iff_sameSix (.inl rfl) (.inr ⟨0, by omega, isNat_zero⟩)).mpr h
  exact isNat_zero.print_ne_dblMax (by omega) hprint.symm

theorem SameSix.symm (h : d.SameSix e) : e.SameSix d := by
  rcases h with ⟨hd, he⟩ | ⟨n, hn, k, hk, hd, he, hsix⟩
  · exact .inl ⟨he, hd⟩
  · exact .inr ⟨k, hk, n, hn, he, hd, hsix.symm⟩

end Double

namespace MdApi

def Value.SameSix : Value → Value → Prop
  | .double d, .double e => d.SameSix e
  | v, w => v = w

/-- The marker where the other record has a zero. -/
def Value.MarkerForZero (v w : Value) : Prop := v = .double dblMax ∧ w = .double zero

/-- What a column shows of a record, before it is printed. -/
def Column.shown (md : CThostFtdcDepthMarketDataField) (c : Column) : Value :=
  if c.raw then c.field md else (c.field md).dblmxtzero

/-- The texts are cells and the doubles whole numbers or markers. -/
structure Plain (md : CThostFtdcDepthMarketDataField) : Prop where
  texts : CellTexts md
  doubles : ∀ c d, Column.field md c = .double d → d.Whole

variable {md md' : CThostFtdcDepthMarketDataField}

section Values

theorem Value.eq_or_marker {v w : Value} (h : v.dblmxtzero = w.dblmxtzero) :
    v = w ∨ v.MarkerForZero w ∨ w.MarkerForZero v := by
  cases v with
  | text s => cases w <;> simp_all [Value.dblmxtzero]
  | int i => cases w <;> simp_all [Value.dblmxtzero]
  | double d =>
    cases w with
    | text s => simp [Value.dblmxtzero] at h
    | int i => simp [Value.dblmxtzero] at h
    | double e =>
      have hde : d.dblmxtzero = e.dblmxtzero := Value.double.inj h
      rw [Double.dblmxtzero, Double.dblmxtzero] at hde
      split_ifs at hde with hd he he
      · exact .inl (by rw [hd, he])
      · exact .inr (.inl ⟨by rw [hd], by rw [hde]⟩)
      · exact .inr (.inr ⟨by rw [he], by rw [hde]⟩)
      · exact .inl (by rw [hde])

theorem Column.field_kind (md md' : CThostFtdcDepthMarketDataField) (c : Column) :
    (∃ s t, c.field md = .text s ∧ c.field md' = .text t) ∨
      (∃ i j, c.field md = .int i ∧ c.field md' = .int j) ∨
      ∃ d e, c.field md = .double d ∧ c.field md' = .double e := by
  cases c with
  | book side quantity level =>
    cases quantity <;> simp [Column.field]
  | _ => simp [Column.field]

theorem Column.shown_kind (md md' : CThostFtdcDepthMarketDataField) (c : Column) :
    (∃ s t, c.shown md = .text s ∧ c.shown md' = .text t) ∨
      (∃ i j, c.shown md = .int i ∧ c.shown md' = .int j) ∨
      ∃ d e, c.shown md = .double d ∧ c.shown md' = .double e := by
  rw [Column.shown, Column.shown]
  rcases Column.field_kind md md' c with ⟨s, t, hs, ht⟩ | ⟨i, j, hi, hj⟩ | ⟨d, e, hd, he⟩
  · rw [hs, ht]
    exact .inl ⟨s, t, by simp [Value.dblmxtzero]⟩
  · rw [hi, hj]
    exact .inr (.inl ⟨i, j, by simp [Value.dblmxtzero]⟩)
  · rw [hd, he]
    refine .inr (.inr ?_)
    cases c.raw
    · exact ⟨d.dblmxtzero, e.dblmxtzero, rfl, rfl⟩
    · exact ⟨d, e, rfl, rfl⟩

theorem Plain.shown (h : Plain md) {c : Column} {d : Double} (hc : c.shown md = .double d) :
    d.Whole := by
  rw [Column.shown] at hc
  split at hc
  · exact h.doubles c d hc
  · cases hf : c.field md with
    | text s => simp [hf, Value.dblmxtzero] at hc
    | int i => simp [hf, Value.dblmxtzero] at hc
    | double e =>
      rw [hf] at hc
      obtain rfl := Value.double.inj hc
      exact (h.doubles c e hf).dblmxtzero

theorem cell_eq_iff (h : Plain md) (h' : Plain md') (c : Column) :
    c.cell md = c.cell md' ↔ (c.shown md).SameSix (c.shown md') := by
  have hcell : ∀ md, c.cell md = (c.shown md).print := fun _ => rfl
  rw [hcell, hcell]
  rcases Column.shown_kind md md' c with ⟨s, t, hs, ht⟩ | ⟨i, j, hi, hj⟩ | ⟨d, e, hd, he⟩
  · rw [hs, ht]
    exact ⟨fun heq => congrArg Value.text heq, fun heq => Value.text.inj heq⟩
  · rw [hi, hj]
    exact ⟨fun heq => congrArg Value.int (printInt_injective heq),
      fun heq => congrArg printInt (Value.int.inj heq)⟩
  · rw [hd, he]
    exact print_eq_iff_sameSix (h.shown hd) (h'.shown he)

end Values

/-- Two rows are the same if and only if all cells are. -/
theorem insertTick_eq_iff (h : CellTexts md) (h' : CellTexts md') :
    insertTick md = insertTick md' ↔ ∀ c : Column, c.cell md = c.cell md' := by
  have hcells : tickCells md = tickCells md' ↔ ∀ c : Column, c.cell md = c.cell md' := by
    rw [tickCells_eq, tickCells_eq, List.map_inj_left]
    exact ⟨fun hc c => hc c (Column.mem_all c), fun hc c _ => hc c⟩
  rw [← hcells]
  constructor
  · intro heq
    have hline := congrArg (List.splitOn ',') (List.append_cancel_right heq)
    rw [splitOn_tickLine h, splitOn_tickLine h'] at hline
    exact List.append_cancel_right hline
  · intro heq
    rw [insertTick, insertTick, tickLine, tickLine, heq]

/-- Equal in every member, a marker counting as zero. -/
def Agree (md md' : CThostFtdcDepthMarketDataField) : Prop :=
  ∀ c, (Column.field md c).dblmxtzero = (Column.field md' c).dblmxtzero

/-- The records differ, but only in numbers that agree in six digits. -/
def Lossy (md md' : CThostFtdcDepthMarketDataField) : Prop :=
  (∃ c, (Column.field md c).dblmxtzero ≠ (Column.field md' c).dblmxtzero) ∧
    ∀ c, (Column.shown md c).SameSix (Column.shown md' c)

/-- The records agree, but one has the marker where the other has a zero in a column that
keeps the marker. -/
def MarkerShown (md md' : CThostFtdcDepthMarketDataField) : Prop :=
  Agree md md' ∧ ∃ c, Column.raw c = true ∧
    ((Column.field md c).MarkerForZero (Column.field md' c) ∨
      (Column.field md' c).MarkerForZero (Column.field md c))

theorem cells_eq_iff_of_agree (h : Plain md) (h' : Plain md') (hagree : Agree md md') :
    (∀ c : Column, c.cell md = c.cell md') ↔ ¬MarkerShown md md' := by
  constructor
  · rintro hcells ⟨-, c, hraw, hmarker⟩
    have hsix := (cell_eq_iff h h' c).mp (hcells c)
    rw [Column.shown, Column.shown, if_pos hraw, if_pos hraw] at hsix
    rcases hmarker with ⟨hd, he⟩ | ⟨hd, he⟩
    · rw [hd, he] at hsix
      exact not_sameSix_marker hsix
    · rw [hd, he] at hsix
      exact not_sameSix_marker hsix.symm
  · intro hnone c
    have hshown : c.shown md = c.shown md' := by
      rw [Column.shown, Column.shown]
      split_ifs with hraw
      · rcases Value.eq_or_marker (hagree c) with heq | hmarker
        · exact heq
        · exact absurd ⟨hagree, c, hraw, hmarker⟩ hnone
      · exact hagree c
    exact congrArg Value.print hshown

/-- The rows of two records tell whether the records agree, unless the difference is below
the sixth digit or in a marker that shows. -/
theorem insertTick_eq_iff_agree (md md' : CThostFtdcDepthMarketDataField) (h : Plain md)
    (h' : Plain md') :
    (insertTick md = insertTick md' ↔ Agree md md') ↔ ¬Lossy md md' ∧ ¬MarkerShown md md' := by
  rw [insertTick_eq_iff h.texts h'.texts]
  by_cases hagree : Agree md md'
  · have hlossy : ¬Lossy md md' := fun hl => hl.1.elim fun c hc => hc (hagree c)
    simp only [hagree, iff_true, hlossy, not_false_eq_true, true_and]
    exact cells_eq_iff_of_agree h h' hagree
  · have hmarker : ¬MarkerShown md md' := fun hm => hagree hm.1
    have hdiff : ∃ c, (Column.field md c).dblmxtzero ≠ (Column.field md' c).dblmxtzero :=
      not_forall.mp hagree
    have hlossy : Lossy md md' ↔ ∀ c : Column, c.cell md = c.cell md' :=
      ⟨fun hl c => (cell_eq_iff h h' c).mpr (hl.2 c),
        fun hc => ⟨hdiff, fun c => (cell_eq_iff h h' c).mp (hc c)⟩⟩
    simp only [hagree, iff_false, hmarker, not_false_eq_true, and_true, hlossy]

section Turnover

def withTurnover (d : Double) : CThostFtdcDepthMarketDataField :=
  { copperTick with turnover := d }

theorem field_withTurnover (d : Double) (c : Column) :
    c.field (withTurnover d) = if c = .turnover then .double d else c.field copperTick := by
  cases c with
  | book side quantity level => cases quantity <;> rfl
  | _ => rfl

theorem plain_withTurnover {d : Double} (hd : d.Whole) : Plain (withTurnover d) where
  texts := { cellTexts_copperTick with }
  doubles c e hc := by
    have hzero : ∀ c e, Column.field copperTick c = .double e → e = zero := by
      intro c e hc
      cases c with
      | book side quantity level =>
        cases quantity with
        | price =>
          have hprice : ∀ level, Column.bookPrice copperTick side level = zero := by
            cases side <;> decide
          rw [← Value.double.inj hc, hprice]
        | volume => cases hc
      | _ => cases hc <;> rfl
    rw [field_withTurnover] at hc
    split at hc
    · exact Value.double.inj hc ▸ hd
    · rw [hzero c e hc]
      exact .inr ⟨0, by omega, isNat_zero⟩

/-- 40839500 -/
def turnover : Double := ⟨0x4183794a60000000⟩

/-- 40839501 -/
def nextTurnover : Double := ⟨0x4183794a68000000⟩

/-- 40839600 -/
def laterTurnover : Double := ⟨0x4183794d80000000⟩

theorem isNat_turnover : turnover.IsNat 40839500 := by constructor <;> decide +kernel

theorem isNat_nextTurnover : nextTurnover.IsNat 40839501 := by constructor <;> decide +kernel

theorem isNat_laterTurnover : laterTurnover.IsNat 40839600 := by constructor <;> decide +kernel

/-- A hundred more is seen in the row. -/
theorem insertTick_eq_iff_agree_turnover :
    insertTick (withTurnover turnover) = insertTick (withTurnover laterTurnover) ↔
      Agree (withTurnover turnover) (withTurnover laterTurnover) := by
  have hd : turnover.Whole := .inr ⟨_, by omega, isNat_turnover⟩
  have he : laterTurnover.Whole := .inr ⟨_, by omega, isNat_laterTurnover⟩
  refine (insertTick_eq_iff_agree _ _ (plain_withTurnover hd) (plain_withTurnover he)).mpr ⟨?_, ?_⟩
  · intro hl
    have hprint : turnover.print = laterTurnover.print :=
      (print_eq_iff_sameSix hd he).mpr (hl.2 .turnover)
    exact absurd hprint (by decide +kernel)
  · intro hm
    have heq : turnover.dblmxtzero = laterTurnover.dblmxtzero := Value.double.inj (hm.1 .turnover)
    exact absurd heq (by decide)

/-- One more is not. -/
theorem nextTurnover_lost : Plain (withTurnover turnover) ∧ Plain (withTurnover nextTurnover) ∧
    ¬(insertTick (withTurnover turnover) = insertTick (withTurnover nextTurnover) ↔
      Agree (withTurnover turnover) (withTurnover nextTurnover)) := by
  have hd := plain_withTurnover (.inr ⟨_, by omega, isNat_turnover⟩)
  have he := plain_withTurnover (.inr ⟨_, by omega, isNat_nextTurnover⟩)
  refine ⟨hd, he, fun h => ?_⟩
  have hrows : insertTick (withTurnover turnover) = insertTick (withTurnover nextTurnover) := by
    refine (insertTick_eq_iff hd.texts he.texts).mpr fun c => ?_
    rw [Column.cell, Column.cell, field_withTurnover, field_withTurnover]
    by_cases hc : c = .turnover
    · subst hc
      decide +kernel
    · rw [if_neg hc, if_neg hc]
  have heq : turnover.dblmxtzero = nextTurnover.dblmxtzero :=
    Value.double.inj (h.mp hrows .turnover)
  exact absurd heq (by decide)

end Turnover

end MdApi
end PyCtp
