import PyCtp.ConfigReference

/-!
# A last line without a newline

At the end of a text, `getline` reports the end of the file with the last line and fails
only at the next call, which leaves its string as it was. The loop over continuation
lines does not test the second call: it adds the last line to the value once more.
-/
namespace PyCtp.Config
open TextScanning

section LastLines
variable (delim comm : Text)

/-- The lines as which both loops read a last line without a newline. -/
def lastLines (l : Text) : List Text :=
  if trim (cut comm l) ≠ [] ∧ find delim (cut comm l) = none then [l, cut comm l] else [l]

variable {delim comm}

theorem loads_failed_of_none {is : IStream Char} (hok : is.ok = false) {n : Text}
    (hn : find delim (cut comm n) = none) : Loads delim comm is n [] := by
  intro contents
  by_cases hnil : n = []
  · subst hnil
    exact loads_failed hok contents
  · have hpos : n.length > 0 := List.length_pos_iff.mpr hnil
    have htake : takeLine is n = (is, n) := by simp [takeLine, hpos]
    rw [loadLoop_of_takeLine (Or.inr hpos) htake, hn]
    exact loads_failed hok contents

theorem getline_at_eof (str : Text) :
    IStream.getline '\n' ⟨[], true, false⟩ str = (⟨[], true, true⟩, str) :=
  IStream.getline_of_not_good rfl str

theorem continueValue_at_eof (value : Text) :
    continueValue delim comm ⟨[], true, false⟩ [] value = (⟨[], true, true⟩, [], value) := by
  rw [continueValue_of_getline rfl (getline_at_eof []), if_pos (show trim [] = [] from rfl)]

theorem loads_at_eof (hne : delim ≠ []) {is : IStream Char} {nextline l m : Text}
    (hcont : is.ok = true ∨ nextline.length > 0)
    (htake : takeLine is nextline = (⟨[], true, false⟩, l)) (hcut : cut comm l = cut comm m) :
    Loads delim comm is nextline [m] := by
  intro contents
  rw [loadLoop_of_takeLine hcont htake, hcut]
  cases hf : find delim (cut comm m) with
  | none =>
    have htake' : takeLine ⟨[], true, false⟩ [] = (⟨[], true, true⟩, []) := rfl
    rw [segment_cons_of_none hf, loadLoop_of_takeLine (Or.inl rfl) htake', cut_nil,
      find_nil_of_ne_nil hne]
    exact loads_failed rfl contents
  | some p =>
    rw [segment_cons_of_some hf, SortedMap.insertAll_cons, absorb]
    simp only [continueValue_at_eof]
    exact loads_failed rfl _

theorem loads_lastLines {is : IStream Char} {nextline l : Text}
    (h : Loads delim comm is nextline [l]) :
    Loads delim comm is nextline (lastLines delim comm l) := by
  rw [lastLines]
  split_ifs with hopen
  · intro contents
    have hcc : find delim (cut comm (cut comm l)) = none := by rw [cut_cut]; exact hopen.2
    rw [h contents, segment_cons_of_none hopen.2, segment_cons_of_none hopen.2,
      segment_cons_of_none hcc]
  · exact h

theorem continueValue_lastLines (hne : delim ≠ []) {l : Text} (hl : '\n' ∉ l) (hlne : l ≠ [])
    (nextline value : Text) :
    (continueValue delim comm (.opened l) nextline value).2.2 =
        (absorb delim comm value (lastLines delim comm l)).1 ∧
      Loads delim comm (continueValue delim comm (.opened l) nextline value).1
        (continueValue delim comm (.opened l) nextline value).2.1
        (absorb delim comm value (lastLines delim comm l)).2 := by
  have hahead : ∀ n, n ≠ [] → cut comm n = cut comm l →
      Loads delim comm ⟨[], true, false⟩ n [l] := by
    intro n hn hcut
    have hpos : n.length > 0 := List.length_pos_iff.mpr hn
    exact loads_at_eof hne (Or.inr hpos) (by simp [takeLine, hpos]) hcut
  rw [continueValue_of_getline rfl (IStream.getline_unterminated hl hlne nextline)]
  by_cases hblank : trim l = []
  · have hbare : trim (cut comm l) = [] := by
      rw [trim, trim_eq_nil_iff] at hblank ⊢
      exact fun c hc => hblank c (mem_of_mem_cut hc)
    rw [if_pos hblank, lastLines, if_neg (fun h => h.1 hbare), absorb, if_pos (Or.inl hblank)]
    exact ⟨rfl, hahead l hlne rfl⟩
  · rw [if_neg hblank]
    by_cases hd : (find delim (cut comm l)).isSome = true
    · have hbarene : cut comm l ≠ [] := by
        intro hnil
        rw [hnil, find_nil_of_ne_nil hne] at hd
        cases hd
      have hsome : find delim (cut comm l) ≠ none := Option.ne_none_iff_isSome.mpr hd
      rw [if_pos hd, lastLines, if_neg (fun h => hsome h.2), absorb, if_pos (Or.inr hd)]
      exact ⟨rfl, hahead _ hbarene (cut_cut comm l)⟩
    · have hnone : find delim (cut comm l) = none := Option.not_isSome_iff_eq_none.mp hd
      rw [if_neg hd, continueValue_of_getline rfl (getline_at_eof _)]
      by_cases hbare : trim (cut comm l) = []
      · rw [if_pos hbare, lastLines, if_neg (fun h => h.1 hbare), absorb,
          if_neg (not_or.mpr ⟨hblank, hd⟩), absorb]
        exact ⟨rfl, loads_failed_of_none rfl (by rw [cut_cut]; exact hnone)⟩
      · -- the string still holds the last line
        rw [if_neg hbare, cut_cut, if_neg hd, continueValue_not_ok delim comm rfl, lastLines,
          if_pos ⟨hbare, hnone⟩, absorb, if_neg (not_or.mpr ⟨hblank, hd⟩), absorb, cut_cut,
          if_neg (not_or.mpr ⟨hbare, hd⟩), absorb]
        exact ⟨rfl, loads_failed_of_none rfl (by rw [cut_cut]; exact hnone)⟩

theorem tail_lastLines (hne : delim ≠ []) {l : Text} (hl : '\n' ∉ l) (hlne : l ≠ []) :
    Tail delim comm l (lastLines delim comm l) where
  outer := by
    refine loads_lastLines (loads_at_eof hne (Or.inl rfl) (l := l) ?_ rfl)
    simpa [takeLine] using IStream.getline_unterminated hl hlne []
  inner := continueValue_lastLines hne hl hlne

end LastLines

/-- What follows the last newline. -/
def lastLine (s : Text) : Text := (s.splitOn '\n').getLastD []

/-- The last line that does not continue the one before it opens an entry. -/
def inEntry (ls : List Text) : Bool :=
  (ls.rdropWhile continues).getLast?.any fun l => '=' ∈ bareLine l

/-- The text ends, without a newline, in a line that continues an entry with more than blanks. -/
def Dangling (s : Text) : Prop :=
  inEntry (lines s) = true ∧ continues (lastLine s) = true ∧ trim (bareLine (lastLine s)) ≠ []

instance (s : Text) : Decidable (Dangling s) := inferInstanceAs (Decidable (_ ∧ _ ∧ _))

theorem entryAt_append_of_not_continues {l : Text} (hl : continues l = false) (m : Text)
    (ls rest : List Text) : entryAt (m :: (ls ++ l :: rest)) = entryAt (m :: ls) := by
  have htake : (ls ++ l :: rest).takeWhile continues = ls.takeWhile continues := by
    induction ls with
    | nil => simp [hl]
    | cons n ls ih => rw [List.cons_append, List.takeWhile_cons, List.takeWhile_cons, ih]
  rw [entryAt, entryAt, htake]

theorem entries_append_of_not_continues {l : Text} (hl : continues l = false)
    (ls rest : List Text) : entries (ls ++ l :: rest) = entries ls ++ entries (l :: rest) := by
  induction ls with
  | nil => rfl
  | cons m ls ih =>
    rw [List.cons_append, entries_cons, entryAt_append_of_not_continues hl, ih, entries_cons m ls,
      List.append_assoc]

theorem entries_eq_nil_of_continues {ls : List Text} (h : ∀ l ∈ ls, continues l = true) :
    entries ls = [] := by
  have happ := entries_of_continues h []
  rw [List.append_nil] at happ
  exact happ

/-- Where an entry is open, the line that opened it, and only lines that continue it since. -/
theorem exists_of_inEntry {ls : List Text} (h : inEntry ls = true) :
    ∃ before l after, ls = before ++ l :: after ∧ '=' ∈ bareLine l ∧
      ∀ m ∈ after, continues m = true := by
  have hsplit := List.rdropWhile_append_rtakeWhile (p := continues) (l := ls)
  rw [inEntry] at h
  cases hd : ls.rdropWhile continues using List.reverseRecOn with
  | nil =>
    rw [hd] at h
    cases h
  | append_singleton before l =>
    rw [hd] at h hsplit
    refine ⟨before, l, ls.rtakeWhile continues, by simpa using hsplit.symm, by simpa using h, ?_⟩
    exact fun m hm => List.mem_rtakeWhile_imp hm

theorem entries_of_inEntry {ls : List Text} (h : inEntry ls = true) :
    ∃ es key value, ∀ rest, (∀ m ∈ rest, continues m = true) →
      entries (ls ++ rest) = es ++ [(key, trim (value ++ rest.flatMap continuation))] := by
  obtain ⟨before, l, after, rfl, hopen, hafter⟩ := exists_of_inEntry h
  have hl : continues l = false := decide_eq_false fun hc => hc.2 hopen
  refine ⟨entries before, trim ((bareLine l).takeWhile (· ≠ '=')),
    ((bareLine l).dropWhile (· ≠ '=')).tail ++ after.flatMap continuation, fun rest hrest => ?_⟩
  have hall : ∀ m ∈ after ++ rest, continues m = true := List.forall_mem_append.mpr ⟨hafter, hrest⟩
  rw [List.append_assoc, List.cons_append, entries_append_of_not_continues hl, entries_cons,
    entries_eq_nil_of_continues hall,
    entryAt, if_pos hopen, List.takeWhile_eq_self_iff.mpr hall, List.flatMap_append,
    List.append_assoc]
  rfl

theorem entries_append_of_not_inEntry {ls : List Text} (h : inEntry ls = false)
    (rest : List Text) : entries (ls ++ rest) = entries ls ++ entries rest := by
  have hsplit := List.rdropWhile_append_rtakeWhile (p := continues) (l := ls)
  have hcont : ∀ l ∈ ls.rtakeWhile continues, continues l = true :=
    fun l hl => List.mem_rtakeWhile_imp hl
  have hnone := entries_eq_nil_of_continues hcont
  rw [inEntry] at h
  rw [← hsplit, List.append_assoc]
  cases hd : ls.rdropWhile continues using List.reverseRecOn with
  | nil => rw [List.nil_append, List.nil_append, entries_of_continues hcont, hnone, List.nil_append]
  | append_singleton before l =>
    have hlast := List.rdropWhile_last_not continues ls (by simp [hd])
    have hl : continues l = false := by simpa [hd] using hlast
    have hclosed : '=' ∉ bareLine l := by simpa [hd] using h
    have hentry : ∀ ms, entries (l :: ms) = entries ms := fun ms => by
      rw [entries_cons, entryAt, if_neg hclosed]
      rfl
    simp only [List.append_assoc, List.cons_append, List.nil_append]
    rw [entries_append_of_not_continues hl, entries_append_of_not_continues hl, hentry, hentry,
      entries_of_continues hcont, hnone, List.append_nil]

theorem lastLines_eq (r : Text) : lastLines "=".toList "#".toList r =
    if trim (bareLine r) ≠ [] ∧ '=' ∉ bareLine r then [r, bareLine r] else [r] := by
  have hbare : cut "#".toList r = bareLine r := cut_singleton_eq_takeWhile '#' r
  have hfind : find "=".toList (bareLine r) = none ↔ '=' ∉ bareLine r := find_singleton_eq_none_iff
  rw [lastLines, hbare]
  simp only [hfind]

theorem loadText_ended {ls : List Text} (hls : ∀ l ∈ ls, '\n' ∉ l) :
    (loadText (terminated '\n' ls) empty).contents = SortedMap.empty.insertAll (entries ls) :=
  congrArg contents (loadText_lines hls .empty)

theorem loadText_unended {ls : List Text} {r : Text} (hls : ∀ l ∈ ls, '\n' ∉ l) (hr : '\n' ∉ r)
    (hne : r ≠ []) : (loadText (terminated '\n' ls ++ r) empty).contents =
      SortedMap.empty.insertAll (entries (ls ++ lastLines "=".toList "#".toList r)) := by
  have hall : ∀ l ∈ ls ++ lastLines "=".toList "#".toList r, '\n' ∉ l := by
    have hbare : '\n' ∉ bareLine r := fun hm => hr ((List.takeWhile_sublist _).subset hm)
    rw [lastLines_eq]
    refine List.forall_mem_append.mpr ⟨hls, ?_⟩
    split_ifs <;> simp [hr, hbare]
  have htail : Tail empty.delimiter empty.comment r (lastLines "=".toList "#".toList r) :=
    tail_lastLines (by simp [empty]) hr hne
  rw [loadText_append (by simp [empty]) htail hall, ← segment_eq_entries]
  rfl

theorem bareLine_bareLine (l : Text) : bareLine (bareLine l) = bareLine l :=
  List.takeWhile_idem

theorem trim_ne_nil_of_bareLine {l : Text} (h : trim (bareLine l) ≠ []) : trim l ≠ [] := by
  intro hl
  refine h (trim_eq_nil_iff.mpr fun c hc => ?_)
  exact trim_eq_nil_iff.mp hl c ((List.takeWhile_sublist _).subset hc)

/-- The second copy of a last line makes the value of the open entry longer. -/
theorem entries_lastLines_ne {ls : List Text} (h : inEntry ls = true) {r : Text}
    (hr : continues r = true) (hblank : trim (bareLine r) ≠ []) :
    SortedMap.empty.insertAll (entries (ls ++ [r, bareLine r])) ≠
      SortedMap.empty.insertAll (entries (ls ++ [r])) := by
  obtain ⟨es, key, value, hes⟩ := entries_of_inEntry h
  have hbare : continues (bareLine r) = true := by
    refine decide_eq_true ⟨hblank, ?_⟩
    rw [bareLine_bareLine]
    exact (of_decide_eq_true hr).2
  have hcont : ∀ l, bareLine l = bareLine r → continuation l = '\n' :: bareLine r := by
    intro l hl
    rw [continuation, hl, if_neg hblank]
  rw [hes [r, bareLine r] (by simp [hr, hbare]), hes [r] (by simp [hr])]
  have hlen : (trim (value ++ '\n' :: bareLine r)).length <
      (trim (value ++ '\n' :: bareLine r ++ '\n' :: bareLine r)).length := by
    refine length_trim_append_cons (fun hnil => hblank ?_) hblank '\n'
    exact trim_eq_nil_iff.mpr fun c hc => trim_eq_nil_iff.mp hnil c (by simp [hc])
  intro heq
  have hlook := congrArg (·.lookup key) heq
  have hvalue : trim (value ++ '\n' :: bareLine r ++ '\n' :: bareLine r) =
      trim (value ++ '\n' :: bareLine r) := by
    simpa [SortedMap.lookup_insertAll, hcont, bareLine_bareLine] using hlook
  rw [hvalue] at hlen
  exact lt_irrefl _ hlen

/-- A final newline may be left out unless the last line continues an entry. -/
theorem load_final_newline (s : Text) :
    (loadText s empty).contents = (loadText (s ++ "\n".toList) empty).contents ↔ ¬Dangling s := by
  obtain ⟨ls, r, rfl, hls, hr⟩ := exists_terminated_append '\n' s
  have hlines : lines (terminated '\n' ls ++ r) = ls := by
    rw [lines, splitOn_terminated_append hls hr, List.dropLast_concat]
  have hlast : lastLine (terminated '\n' ls ++ r) = r := by
    rw [lastLine, splitOn_terminated_append hls hr]
    simp
  have hended : (loadText (terminated '\n' ls ++ r ++ "\n".toList) empty).contents =
      SortedMap.empty.insertAll (entries (ls ++ [r])) := by
    have htext : terminated '\n' ls ++ r ++ "\n".toList = terminated '\n' (ls ++ [r]) := by
      simp [terminated_append]
    have hall : ∀ l ∈ ls ++ [r], '\n' ∉ l := List.forall_mem_append.mpr ⟨hls, by simpa using hr⟩
    rw [htext, loadText_ended hall]
  rw [Dangling, hlines, hlast, hended]
  by_cases hnil : r = []
  · subst hnil
    have hblank : continues [] = false := rfl
    have hnone : entries [[]] = [] := rfl
    rw [List.append_nil, loadText_ended hls, entries_append_of_not_continues hblank ls [], hnone,
      List.append_nil, hblank]
    simp
  · rw [loadText_unended hls hr hnil, lastLines_eq]
    by_cases hopen : trim (bareLine r) ≠ [] ∧ '=' ∉ bareLine r
    · have hcont : continues r = true := decide_eq_true ⟨trim_ne_nil_of_bareLine hopen.1, hopen.2⟩
      rw [if_pos hopen]
      cases hin : inEntry ls with
      | true =>
        have hdiff := entries_lastLines_ne hin hcont hopen.1
        simp [hdiff, hcont, hopen.1]
      | false =>
        have hbare : '=' ∉ bareLine (bareLine r) := by rw [bareLine_bareLine]; exact hopen.2
        rw [entries_append_of_not_inEntry hin, entries_append_of_not_inEntry hin]
        simp [entries, entryAt, hopen.2, hbare]
    · rw [if_neg hopen]
      refine iff_of_true rfl fun hd => hopen ⟨hd.2.2, ?_⟩
      exact (of_decide_eq_true hd.2.1).2

/-- The value of the one entry takes in its last line twice. -/
theorem load_final_newline_dangling :
    (loadText "a=1\nb".toList empty).contents ≠
      (loadText ("a=1\nb".toList ++ "\n".toList) empty).contents := by
  have hopen : (loadText (terminated '\n' ["a=1".toList] ++ "b".toList) empty).contents = _ :=
    loadText_unended (by decide) (by decide) (by decide)
  have hended : (loadText (terminated '\n' ["a=1".toList, "b".toList]) empty).contents = _ :=
    loadText_ended (by decide)
  intro heq
  have hsame := hopen.symm.trans (heq.trans hended)
  have hlook := congrArg (·.lookup "a".toList) hsame
  exact absurd hlook (by decide)

end PyCtp.Config
