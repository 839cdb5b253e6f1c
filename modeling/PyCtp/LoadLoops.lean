import PyCtp.ConfigSegmentation
import PyCtp.WhileLoops

/-!
# The loops of the configuration reader

`operator>>` one test of a loop condition at a time, from any stream and with any separator
and comment opener. The stream converts to `bool` as `!fail()`, so a stream with `badbit`
reads as one with `failbit`.
-/
namespace PyCtp.Config
open TextScanning WhileLoops

/-- Before a test of the outer loop, or of the inner loop of an entry. -/
inductive Loading
  | outer (is : IStream Char) (nextline : Text) (contents : SortedMap Text Text)
  | inner (is : IStream Char) (nextline : Text) (terminate : Bool) (key line : Text)
      (contents : SortedMap Text Text)

section Loops
variable (delim comm : Text)

/-- A test and, if it succeeds, the body up to the next test. -/
def loadStep : Loading → Option Loading
  | .outer is nextline contents =>
    if is.ok = true ∨ nextline.length > 0 then
      let read := takeLine is nextline
      let line := cut comm read.2
      match find delim line with
      | none => some (.outer read.1 [] contents)
      | some delimPos =>
        some (.inner read.1 [] false (line.take delimPos)
          (line.drop (delimPos + delim.length)) contents)
    else none
  | .inner is nextline terminate key line contents =>
    if terminate = false ∧ is.ok = true then
      let next := is.getline '\n' nextline
      if trim next.2 = [] then some (.inner next.1 next.2 true key line contents)
      else
        let bare := cut comm next.2
        if (find delim bare).isSome then some (.inner next.1 bare true key line contents)
        else some (.inner next.1 bare false key (appendLine line bare) contents)
    else some (.outer is nextline (contents.insert (trim key) (trim line)))

/-- What is left to read, with the line read ahead and the inner loop on top. -/
def Loading.remaining : Loading → ℕ
  | .outer is nextline _ => 3 * is.unread + if nextline = [] then 0 else 2
  | .inner is nextline _ _ _ _ => 3 * is.unread + (if nextline = [] then 0 else 2) + 1

variable {delim comm}

theorem loadStep_outer_none {is : IStream Char} {nextline : Text}
    (hcont : is.ok = true ∨ nextline.length > 0)
    (hf : find delim (cut comm (takeLine is nextline).2) = none)
    (contents : SortedMap Text Text) :
    loadStep delim comm (.outer is nextline contents) =
      some (.outer (takeLine is nextline).1 [] contents) := by
  rw [loadStep, if_pos hcont]
  simp only [hf]

theorem loadStep_outer_some {is : IStream Char} {nextline : Text}
    (hcont : is.ok = true ∨ nextline.length > 0) {p : ℕ}
    (hf : find delim (cut comm (takeLine is nextline).2) = some p)
    (contents : SortedMap Text Text) :
    loadStep delim comm (.outer is nextline contents) =
      some (.inner (takeLine is nextline).1 [] false ((cut comm (takeLine is nextline).2).take p)
        ((cut comm (takeLine is nextline).2).drop (p + delim.length)) contents) := by
  rw [loadStep, if_pos hcont]
  simp only [hf]

theorem loadStep_inner_exit {is : IStream Char} {terminate : Bool}
    (hexit : ¬(terminate = false ∧ is.ok = true)) (nextline key line : Text)
    (contents : SortedMap Text Text) :
    loadStep delim comm (.inner is nextline terminate key line contents) =
      some (.outer is nextline (contents.insert (trim key) (trim line))) := by
  rw [loadStep, if_neg hexit]

section Inner
variable {is : IStream Char} {nextline : Text} (hok : is.ok = true) (key line : Text)
  (contents : SortedMap Text Text)
include hok

theorem loadStep_inner_blank (hblank : trim (is.getline '\n' nextline).2 = []) :
    loadStep delim comm (.inner is nextline false key line contents) =
      some (.inner (is.getline '\n' nextline).1 (is.getline '\n' nextline).2 true key line
        contents) := by
  rw [loadStep, if_pos ⟨rfl, hok⟩]
  exact if_pos hblank

theorem loadStep_inner_entry (hblank : trim (is.getline '\n' nextline).2 ≠ [])
    (hdelim : (find delim (cut comm (is.getline '\n' nextline).2)).isSome) :
    loadStep delim comm (.inner is nextline false key line contents) =
      some (.inner (is.getline '\n' nextline).1 (cut comm (is.getline '\n' nextline).2) true key
        line contents) := by
  rw [loadStep, if_pos ⟨rfl, hok⟩]
  exact (if_neg hblank).trans (if_pos hdelim)

theorem loadStep_inner_more (hblank : trim (is.getline '\n' nextline).2 ≠ [])
    (hdelim : ¬(find delim (cut comm (is.getline '\n' nextline).2)).isSome) :
    loadStep delim comm (.inner is nextline false key line contents) =
      some (.inner (is.getline '\n' nextline).1 (cut comm (is.getline '\n' nextline).2) false key
        (appendLine line (cut comm (is.getline '\n' nextline).2)) contents) := by
  rw [loadStep, if_pos ⟨rfl, hok⟩]
  exact (if_neg hblank).trans (if_neg hdelim)

end Inner

section Remaining
variable {is : IStream Char} {nextline : Text}

theorem takeLine_remaining_lt (hcont : is.ok = true ∨ nextline.length > 0)
    (contents : SortedMap Text Text) :
    3 * (takeLine is nextline).1.unread + 1 < (Loading.outer is nextline contents).remaining := by
  rw [Loading.remaining, takeLine]
  by_cases hnil : nextline = []
  · subst hnil
    have hlt := IStream.getline_unread_lt '\n' (hcont.resolve_right (by simp)) []
    simp only [List.length_nil, gt_iff_lt, lt_irrefl, if_false, if_true]
    omega
  · simp [List.length_pos_iff.mpr hnil, hnil]

theorem getline_remaining_lt (hok : is.ok = true) {ahead key line key' line' : Text}
    {terminate terminate' : Bool} {contents contents' : SortedMap Text Text} :
    (Loading.inner (is.getline '\n' nextline).1 ahead terminate key line contents).remaining <
      (Loading.inner is nextline terminate' key' line' contents').remaining := by
  have hlt := IStream.getline_unread_lt '\n' hok nextline
  have hahead : (if ahead = [] then 0 else 2) ≤ 2 := by
    split <;> omega
  rw [Loading.remaining, Loading.remaining]
  omega

/-- Every step leaves less: a line read ahead counts for two, a character to read for three. -/
theorem loadStep_remaining_lt {s t : Loading} (h : loadStep delim comm s = some t) :
    t.remaining < s.remaining := by
  cases s with
  | outer is nextline contents =>
    by_cases hcont : is.ok = true ∨ nextline.length > 0
    · have hlt := takeLine_remaining_lt hcont contents
      cases hf : find delim (cut comm (takeLine is nextline).2) with
      | none =>
        rw [loadStep_outer_none hcont hf] at h
        obtain rfl := Option.some.inj h
        exact (Nat.lt_succ_self _).trans hlt
      | some p =>
        rw [loadStep_outer_some hcont hf] at h
        obtain rfl := Option.some.inj h
        exact hlt
    · rw [loadStep, if_neg hcont] at h
      cases h
  | inner is nextline terminate key line contents =>
    by_cases hcont : terminate = false ∧ is.ok = true
    · obtain ⟨rfl, hok⟩ := hcont
      by_cases hblank : trim (is.getline '\n' nextline).2 = []
      · rw [loadStep_inner_blank hok _ _ _ hblank] at h
        obtain rfl := Option.some.inj h
        exact getline_remaining_lt hok
      by_cases hdelim : (find delim (cut comm (is.getline '\n' nextline).2)).isSome
      · rw [loadStep_inner_entry hok _ _ _ hblank hdelim] at h
        obtain rfl := Option.some.inj h
        exact getline_remaining_lt hok
      · rw [loadStep_inner_more hok _ _ _ hblank hdelim] at h
        obtain rfl := Option.some.inj h
        exact getline_remaining_lt hok
    · rw [loadStep_inner_exit hcont] at h
      obtain rfl := Option.some.inj h
      exact Nat.lt_succ_self _

end Remaining

theorem inner_ends (is : IStream Char) (nextline key line : Text)
    (contents : SortedMap Text Text) {t : Loading}
    (h : Ends (loadStep delim comm)
      (.outer (continueValue delim comm is nextline line).1
        (continueValue delim comm is nextline line).2.1
        (contents.insert (trim key) (trim (continueValue delim comm is nextline line).2.2))) t) :
    Ends (loadStep delim comm) (.inner is nextline false key line contents) t := by
  have hlast : ∀ (is : IStream Char) (nextline line : Text),
      Ends (loadStep delim comm)
        (.outer is nextline (contents.insert (trim key) (trim line))) t →
      Ends (loadStep delim comm) (.inner is nextline true key line contents) t := by
    intro is nextline line hout
    exact hout.step (loadStep_inner_exit (by simp) nextline key line contents)
  induction is, nextline, line using continueValue.induct delim comm with
  | case1 is nextline line hok next hblank =>
    rw [continueValue, dif_pos hok, if_pos hblank] at h
    apply (hlast next.1 next.2 line h).step
    exact loadStep_inner_blank hok key line contents hblank
  | case2 is nextline line hok next hblank bare hdelim =>
    rw [continueValue, dif_pos hok, if_neg hblank, if_pos hdelim] at h
    apply (hlast next.1 bare line h).step
    exact loadStep_inner_entry hok key line contents hblank hdelim
  | case3 is nextline line hok next hblank bare hdelim ih =>
    rw [continueValue, dif_pos hok, if_neg hblank, if_neg hdelim] at h
    apply (ih h).step
    exact loadStep_inner_more hok key line contents hblank hdelim
  | case4 is nextline line hok =>
    rw [continueValue, dif_neg hok] at h
    exact h.step (loadStep_inner_exit (fun hcont => hok hcont.2) nextline key line contents)

theorem outer_ends (is : IStream Char) (nextline : Text) (contents : SortedMap Text Text) :
    Ends (loadStep delim comm) (.outer is nextline contents)
      (.outer (loadLoop delim comm is nextline contents).1 []
        (loadLoop delim comm is nextline contents).2) := by
  induction is, nextline, contents using loadLoop.induct delim comm with
  | case1 is nextline contents hcont read line hnone ih =>
    have htake : takeLine is nextline = (read.1, read.2) := rfl
    rw [loadLoop_of_takeLine hcont htake, hnone]
    exact ih.step (loadStep_outer_none hcont hnone contents)
  | case2 is nextline contents hcont read line p hsome key rest ih =>
    have htake : takeLine is nextline = (read.1, read.2) := rfl
    rw [loadLoop_of_takeLine hcont htake, hsome]
    exact (inner_ends _ _ _ _ _ ih).step (loadStep_outer_some hcont hsome contents)
  | case3 is nextline contents hstop =>
    obtain ⟨hok, hlen⟩ := not_or.mp hstop
    obtain rfl : nextline = [] := List.length_eq_zero_iff.mp (Nat.eq_zero_of_not_pos hlen)
    rw [loadLoop_failed (Bool.eq_false_iff.mpr hok)]
    apply Ends.exit
    rw [loadStep, if_neg hstop]

end Loops

/-- The nested loops end, within three tests for each character and a few more, in what `load`
returns: from every stream, for every separator and comment opener. -/
theorem load_ends (is : IStream Char) (cf : Config) :
    iter (loadStep cf.delimiter cf.comment) (3 * is.unread + 1) (.outer is [] cf.contents) =
      some (.outer (load is cf).1 [] (load is cf).2.contents) := by
  have hstep : ∀ s t, loadStep cf.delimiter cf.comment s = some t → t.remaining < s.remaining :=
    fun s t => loadStep_remaining_lt
  obtain ⟨t, ht⟩ := iter_of_measure Loading.remaining hstep
    (Nat.lt_succ_self (Loading.outer is [] cf.contents).remaining)
  have hends : Ends (loadStep cf.delimiter cf.comment) _ _ := outer_ends is [] cf.contents
  rw [show (3 * is.unread + 1) = (Loading.outer is [] cf.contents).remaining + 1 from rfl, ht]
  exact congrArg some (Ends.unique ⟨_, ht⟩ hends)

end PyCtp.Config
