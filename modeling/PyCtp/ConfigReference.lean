import PyCtp.ConfigSegmentation

/-!
# A configuration file line by line

What a file means with the default separator and comment opener, said without streams,
loops or read-ahead: every line that still has a `=` after its comment is removed opens
an entry, and the entry runs to the next such line or the next blank one. `operator>>`
inserts exactly these entries.
-/
namespace PyCtp.Config
open TextScanning

def lines (s : Text) : List Text := (s.splitOn '\n').dropLast

def bareLine (l : Text) : Text := l.takeWhile (· ≠ '#')

/-- The line belongs to the entry before it: not blank, and no separator outside a comment. -/
def continues (l : Text) : Bool := trim l ≠ [] ∧ '=' ∉ bareLine l

/-- What such a line adds to the value. -/
def continuation (l : Text) : Text :=
  if trim (bareLine l) = [] then bareLine l else '\n' :: bareLine l

/-- The entry that the first of the given lines opens, if it opens one. -/
def entryAt : List Text → Option (Text × Text)
  | [] => none
  | l :: ls =>
    if '=' ∈ bareLine l then
      some (trim ((bareLine l).takeWhile (· ≠ '=')),
        trim (((bareLine l).dropWhile (· ≠ '=')).tail ++
          (ls.takeWhile continues).flatMap continuation))
    else none

def entries (ls : List Text) : List (Text × Text) := ls.tails.filterMap entryAt

/-- A text that is not empty ends with a newline. -/
def Ended (s : Text) : Prop := s = [] ∨ ∃ t, s = t ++ "\n".toList

theorem entries_cons (l : Text) (ls : List Text) :
    entries (l :: ls) = (entryAt (l :: ls)).toList ++ entries ls := by
  rw [entries, List.tails_cons, List.filterMap_cons]
  cases entryAt (l :: ls) <;> rfl

theorem entries_of_continues {ls : List Text} (h : ∀ l ∈ ls, continues l = true)
    (ms : List Text) : entries (ls ++ ms) = entries ms := by
  induction ls with
  | nil => rfl
  | cons l ls ih =>
    obtain ⟨hl, hls⟩ := List.forall_mem_cons.mp h
    have hno : '=' ∉ bareLine l := (of_decide_eq_true hl).2
    rw [List.cons_append, entries_cons, entryAt, if_neg hno, ih hls]
    rfl

theorem absorb_eq (value : Text) (ls : List Text) :
    absorb "=".toList "#".toList value ls =
      (value ++ (ls.takeWhile continues).flatMap continuation, ls.dropWhile continues) := by
  induction ls generalizing value with
  | nil => simp [absorb]
  | cons l ls ih =>
    have hbare : cut "#".toList l = bareLine l := cut_singleton_eq_takeWhile '#' l
    have hfind : (find "=".toList (bareLine l)).isSome = true ↔ '=' ∈ bareLine l := by
      rw [← Option.ne_none_iff_isSome]
      exact (not_congr find_singleton_eq_none_iff).trans not_not
    by_cases hl : continues l = true
    · obtain ⟨hblank, hno⟩ := of_decide_eq_true hl
      rw [absorb, hbare, if_neg (not_or.mpr ⟨hblank, fun h => hno (hfind.mp h)⟩), ih,
        List.takeWhile_cons_of_pos hl, List.dropWhile_cons_of_pos hl, List.flatMap_cons,
        ← List.append_assoc]
      congr 2
      rw [appendLine, continuation]
      split <;> simp
    · have hstop : trim l = [] ∨ '=' ∈ bareLine l := by
        by_contra hc
        rw [not_or] at hc
        exact hl (decide_eq_true hc)
      rw [absorb, hbare, if_pos (hstop.imp_right hfind.mpr), List.takeWhile_cons_of_neg hl,
        List.dropWhile_cons_of_neg hl]
      simp

/-- Reading line by line finds exactly the entries. -/
theorem segment_eq_entries (ls : List Text) :
    segment "=".toList "#".toList ls = entries ls := by
  induction hn : ls.length using Nat.strong_induction_on generalizing ls with
  | _ n ih =>
    subst hn
    cases ls with
    | nil => rw [segment]; rfl
    | cons l ls =>
      have hbare : cut "#".toList l = bareLine l := cut_singleton_eq_takeWhile '#' l
      by_cases hopen : '=' ∈ bareLine l
      · obtain ⟨p, hp, htake, hdrop⟩ := find_singleton_of_mem hopen
        have hlen : (ls.dropWhile continues).length ≤ ls.length :=
          (List.dropWhile_sublist continues).length_le
        have hrest : entries ls = entries (ls.dropWhile continues) := by
          conv_lhs => rw [← List.takeWhile_append_dropWhile (p := continues) (l := ls)]
          exact entries_of_continues (fun l hl => List.mem_takeWhile_imp hl) _
        rw [segment_cons_of_some (p := p) (by rw [hbare]; exact hp), absorb_eq, hbare,
          ih _ (Nat.lt_succ_of_le hlen) _ rfl, entries_cons, entryAt, if_pos hopen, hrest, htake]
        have hdrop' : (bareLine l).drop (p + "=".toList.length) =
            ((bareLine l).dropWhile (· ≠ '=')).tail := hdrop
        rw [hdrop']
        rfl
      · have hnone : find "=".toList (cut "#".toList l) = none := by
          rw [hbare]
          exact find_singleton_eq_none_iff.mpr hopen
        rw [segment_cons_of_none hnone, ih ls.length (by simp) ls rfl, entries_cons, entryAt,
          if_neg hopen]
        rfl

theorem lines_terminated {ls : List Text} (h : ∀ l ∈ ls, '\n' ∉ l) :
    lines (terminated '\n' ls) = ls := by
  rw [lines, splitOn_terminated h, List.dropLast_concat]

theorem Ended.exists_lines {s : Text} (h : Ended s) :
    ∃ ls, s = terminated '\n' ls ∧ ∀ l ∈ ls, '\n' ∉ l := by
  obtain ⟨ls, r, rfl, hls, hr⟩ := exists_terminated_append '\n' s
  cases r using List.reverseRecOn with
  | nil => exact ⟨ls, by simp, hls⟩
  | append_singleton r c =>
    rcases h with h | ⟨t, ht⟩
    · simp at h
    · rw [← List.append_assoc] at ht
      obtain rfl : c = '\n' := by simpa using (List.append_inj' ht rfl).2
      exact absurd (by simp) hr

theorem loadText_lines {ls : List Text} (hls : ∀ l ∈ ls, '\n' ∉ l)
    (contents : SortedMap Text Text) :
    loadText (terminated '\n' ls) ⟨"=".toList, "#".toList, contents⟩ =
      ⟨"=".toList, "#".toList, contents.insertAll (entries ls)⟩ := by
  rw [loadText_terminated (by simp) hls, segment_eq_entries]

theorem loadText_entries {s : Text} (h : Ended s) (contents : SortedMap Text Text) :
    loadText s ⟨"=".toList, "#".toList, contents⟩ =
      ⟨"=".toList, "#".toList, contents.insertAll (entries (lines s))⟩ := by
  obtain ⟨ls, rfl, hls⟩ := h.exists_lines
  rw [loadText_lines hls, lines_terminated hls]

/-- After loading, every key has the value of the last entry under it in the file, and the
value it had before where there is none. -/
theorem load_line_by_line (contents : SortedMap Text Text) (s : Text) (h : Ended s) :
    loadText s ⟨"=".toList, "#".toList, contents⟩ =
        ⟨"=".toList, "#".toList, contents.insertAll (entries (lines s))⟩ ∧
      ∀ key, (loadText s ⟨"=".toList, "#".toList, contents⟩).contents.lookup key =
        (((entries (lines s)).reverse.find? fun e => e.1 = key).map (·.2)).or
          (contents.lookup key) := by
  have hload := loadText_entries h contents
  refine ⟨hload, fun key => ?_⟩
  rw [hload]
  convert SortedMap.lookup_insertAll contents (entries (lines s)) key

def sampleText : Text := "a = 1 # first\n 2\n#\n 3\n\nb=\na= 4 \n".toList

theorem load_line_by_line_sample :
    (loadText sampleText empty).contents.lookup "a".toList = some "4".toList ∧
      entries (lines sampleText) = [("a".toList, "1 \n 2\n 3".toList), ("b".toList, []),
        ("a".toList, "4".toList)] := by
  have hended : Ended sampleText := .inr ⟨sampleText.dropLast, by decide⟩
  have hload := (load_line_by_line .empty sampleText hended).2 "a".toList
  exact ⟨hload.trans (by decide), by decide⟩

end PyCtp.Config
