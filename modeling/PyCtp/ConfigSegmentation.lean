import PyCtp.Config

/-!
# Line-by-line reading of a configuration

What `load` computes on a text of lines ended by a newline, said on the list of lines:
an entry takes its value from its own line and from the lines that `absorb` adds to it,
and reading goes on with the first line that was not absorbed. The read-ahead line of
the code disappears; `ReadAhead` relates the two, up to what follows the last newline.
-/
namespace PyCtp.Config
open TextScanning

variable (delim comm : Text)

/-- Extend a value by the lines that continue it; the second component starts with the
first line that does not. -/
def absorb : Text → List Text → Text × List Text
  | value, [] => (value, [])
  | value, l :: ls =>
    if trim l = [] ∨ (find delim (cut comm l)).isSome then (value, l :: ls)
    else absorb (appendLine value (cut comm l)) ls

theorem absorb_length_le (value : Text) (ls : List Text) :
    (absorb delim comm value ls).2.length ≤ ls.length := by
  induction ls generalizing value with
  | nil => simp [absorb]
  | cons l ls ih =>
    rw [absorb]
    split_ifs
    · exact Nat.le_refl _
    · exact (ih _).trans (Nat.le_succ _)

theorem absorb_subset (value : Text) (ls : List Text) :
    ∀ l ∈ (absorb delim comm value ls).2, l ∈ ls := by
  induction ls generalizing value with
  | nil => simp [absorb]
  | cons l ls ih =>
    rw [absorb]
    split_ifs
    · exact fun _ h => h
    · exact fun m h => List.mem_cons_of_mem _ (ih _ m h)

/-- The entries of a list of lines, in the order of their first lines. -/
def segment : List Text → List (Text × Text)
  | [] => []
  | l :: ls =>
    let line := cut comm l
    match find delim line with
    | none => segment ls
    | some delimPos =>
      let rest := absorb delim comm (line.drop (delimPos + delim.length)) ls
      (trim (line.take delimPos), trim rest.1) :: segment rest.2
termination_by ls => ls.length
decreasing_by
  · simp
  · exact Nat.lt_succ_of_le (absorb_length_le delim comm _ ls)

variable {delim comm}

theorem segment_cons_of_none {l : Text} (h : find delim (cut comm l) = none) (ls : List Text) :
    segment delim comm (l :: ls) = segment delim comm ls := by
  rw [segment]
  simp only [h]

theorem segment_cons_of_some {l : Text} {p : ℕ} (h : find delim (cut comm l) = some p)
    (ls : List Text) :
    segment delim comm (l :: ls) =
      (trim ((cut comm l).take p),
        trim (absorb delim comm ((cut comm l).drop (p + delim.length)) ls).1) ::
        segment delim comm (absorb delim comm ((cut comm l).drop (p + delim.length)) ls).2 := by
  rw [segment]
  simp only [h]

theorem find_nil_of_ne_nil (hne : delim ≠ []) : find delim [] = none := by simp [find, hne]

variable (delim comm) in
/-- From the stream and the line read ahead, the outer loop inserts the entries of the
given lines. -/
def Loads (is : IStream Char) (nextline : Text) (ls : List Text) : Prop :=
  ∀ contents, (loadLoop delim comm is nextline contents).2 =
    contents.insertAll (segment delim comm ls)

variable (delim comm) in
/-- The end of a text, which both loops read as the given lines. -/
structure Tail (r : Text) (rs : List Text) : Prop where
  outer : Loads delim comm (.opened r) [] rs
  inner : ∀ nextline value,
    (continueValue delim comm (.opened r) nextline value).2.2 = (absorb delim comm value rs).1 ∧
      Loads delim comm (continueValue delim comm (.opened r) nextline value).1
        (continueValue delim comm (.opened r) nextline value).2.1 (absorb delim comm value rs).2

variable (delim comm) in
/-- The stream and read-ahead line with which the code stands before the given lines. -/
inductive ReadAhead (r : Text) (rs : List Text) : IStream Char → Text → List Text → Prop
  | fresh (ls : List Text) : ReadAhead r rs (.opened (terminated '\n' ls ++ r)) [] (ls ++ rs)
  | ahead (ls : List Text) {nextline l : Text} (hl : cut comm nextline = cut comm l)
      (hnil : nextline = [] → l = []) :
      ReadAhead r rs (.opened (terminated '\n' ls ++ r)) nextline (l :: (ls ++ rs))
  | tail {is : IStream Char} {nextline : Text} {ls : List Text}
      (h : Loads delim comm is nextline ls) : ReadAhead r rs is nextline ls

theorem continueValue_of_getline {is : IStream Char} (hok : is.ok = true) {nextline l : Text}
    {next : IStream Char} (hget : is.getline '\n' nextline = (next, l)) (line : Text) :
    continueValue delim comm is nextline line =
      if trim l = [] then (next, l, line)
      else if (find delim (cut comm l)).isSome then (next, cut comm l, line)
      else continueValue delim comm next (cut comm l) (appendLine line (cut comm l)) := by
  rw [continueValue, dif_pos hok, hget]

theorem continueValue_absorb (hne : delim ≠ []) {r : Text} {rs : List Text}
    (htail : Tail delim comm r rs) {ls : List Text} (hls : ∀ l ∈ ls, '\n' ∉ l)
    (nextline value : Text) :
    (continueValue delim comm (.opened (terminated '\n' ls ++ r)) nextline value).2.2 =
      (absorb delim comm value (ls ++ rs)).1 ∧
    ReadAhead delim comm r rs
      (continueValue delim comm (.opened (terminated '\n' ls ++ r)) nextline value).1
      (continueValue delim comm (.opened (terminated '\n' ls ++ r)) nextline value).2.1
      (absorb delim comm value (ls ++ rs)).2 := by
  induction ls generalizing nextline value with
  | nil =>
    obtain ⟨hvalue, hloads⟩ := htail.inner nextline value
    exact ⟨hvalue, .tail hloads⟩
  | cons l ls ih =>
    obtain ⟨hl, hls⟩ := List.forall_mem_cons.mp hls
    rw [terminated_cons, List.append_assoc, List.cons_append,
      continueValue_of_getline rfl (IStream.getline_line hl _ nextline), List.cons_append]
    by_cases hblank : trim l = []
    · rw [if_pos hblank, absorb, if_pos (Or.inl hblank)]
      exact ⟨rfl, .ahead ls rfl id⟩
    · rw [if_neg hblank]
      by_cases hd : (find delim (cut comm l)).isSome = true
      · rw [if_pos hd, absorb, if_pos (Or.inr hd)]
        refine ⟨rfl, .ahead ls (cut_cut comm l) fun hnil => ?_⟩
        have hbare : cut comm l = [] := hnil
        rw [hbare, find_nil_of_ne_nil hne] at hd
        cases hd
      · rw [if_neg hd, absorb, if_neg (not_or.mpr ⟨hblank, hd⟩)]
        exact ih hls _ _

theorem loadLoop_of_takeLine {is : IStream Char} {nextline : Text}
    (hcont : is.ok = true ∨ nextline.length > 0) {line : Text} {next : IStream Char}
    (htake : takeLine is nextline = (next, line)) (contents : SortedMap Text Text) :
    loadLoop delim comm is nextline contents =
      match find delim (cut comm line) with
      | none => loadLoop delim comm next [] contents
      | some p =>
        let rest := continueValue delim comm next [] ((cut comm line).drop (p + delim.length))
        loadLoop delim comm rest.1 rest.2.1
          (contents.insert (trim ((cut comm line).take p)) (trim rest.2.2)) := by
  rw [loadLoop, dif_pos hcont]
  cases hfind : find delim (cut comm line) with
  | none => simp only [htake, hfind]
  | some p => simp only [htake, hfind]

theorem loadLoop_failed {is : IStream Char} (hok : is.ok = false)
    (contents : SortedMap Text Text) :
    loadLoop delim comm is [] contents = (is, contents) := by
  rw [loadLoop, dif_neg (by simp [hok])]

theorem loads_failed {is : IStream Char} (hok : is.ok = false) : Loads delim comm is [] [] := by
  intro contents
  rw [loadLoop_failed hok, segment, SortedMap.insertAll_nil]

/-- Before a list of lines, the outer loop inserts exactly their entries. -/
theorem loads_of_readAhead (hne : delim ≠ []) {r : Text} {rs : List Text}
    (htail : Tail delim comm r rs) {is : IStream Char} {nextline : Text} {ls : List Text}
    (hr : ReadAhead delim comm r rs is nextline ls) (hls : ∀ l ∈ ls, '\n' ∉ l) :
    Loads delim comm is nextline ls := by
  induction hn : ls.length using Nat.strong_induction_on generalizing is nextline ls with
  | _ n ih =>
    subst hn
    have hline : ∀ (l m : Text) (ms : List Text), ls = m :: (ms ++ rs) → cut comm l = cut comm m →
        is.ok = true ∨ nextline.length > 0 →
        takeLine is nextline = (.opened (terminated '\n' ms ++ r), l) →
        Loads delim comm is nextline ls := by
      intro l m ms hms hcut hcont htake contents
      subst hms
      have hms' := (List.forall_mem_cons.mp hls).2
      rw [loadLoop_of_takeLine hcont htake, hcut]
      cases hf : find delim (cut comm m) with
      | none =>
        rw [segment_cons_of_none hf]
        exact ih (ms ++ rs).length (by simp) (.fresh ms) hms' rfl contents
      | some p =>
        have ha := continueValue_absorb hne htail (List.forall_mem_append.mp hms').1 []
          ((cut comm m).drop (p + delim.length))
        have hlen := absorb_length_le delim comm ((cut comm m).drop (p + delim.length)) (ms ++ rs)
        have hsub := absorb_subset delim comm ((cut comm m).drop (p + delim.length)) (ms ++ rs)
        rw [segment_cons_of_some hf, SortedMap.insertAll_cons, ← ha.1]
        exact ih _ (Nat.lt_succ_of_le hlen) ha.2 (fun l hl => hms' l (hsub l hl)) rfl _
    cases hr with
    | fresh ms =>
      cases ms with
      | nil => exact htail.outer
      | cons m ms =>
        have hm := (List.forall_mem_cons.mp hls).1
        refine hline m m ms rfl rfl (Or.inl rfl) ?_
        simpa [takeLine] using IStream.getline_line hm (terminated '\n' ms ++ r) []
    | @ahead ms _ m hcut hnil =>
      by_cases hnext : nextline = []
      · subst hnext
        obtain rfl := hnil rfl
        intro contents
        rw [segment_cons_of_none (by rw [cut_nil, find_nil_of_ne_nil hne])]
        exact ih (ms ++ rs).length (by simp) (.fresh ms) (List.forall_mem_cons.mp hls).2 rfl
          contents
      · have hpos : nextline.length > 0 := List.length_pos_iff.mpr hnext
        exact hline nextline m ms rfl hcut (Or.inr hpos) (by simp [takeLine, hpos])
    | tail h => exact h

/-- Loading lines and a tail inserts their entries, the later ones over the earlier. -/
theorem loadText_append {cf : Config} (hne : cf.delimiter ≠ []) {r : Text} {rs : List Text}
    (htail : Tail cf.delimiter cf.comment r rs) {ls : List Text}
    (hls : ∀ l ∈ ls ++ rs, '\n' ∉ l) :
    loadText (terminated '\n' ls ++ r) cf =
      { cf with
        contents := cf.contents.insertAll (segment cf.delimiter cf.comment (ls ++ rs)) } := by
  have h := loads_of_readAhead hne htail (.fresh ls) hls cf.contents
  simp only [loadText, load, h]

theorem tail_nil (hne : delim ≠ []) : Tail delim comm [] [] where
  outer := by
    intro contents
    have htake : takeLine (.opened []) [] = (⟨[], true, true⟩, []) := rfl
    rw [loadLoop_of_takeLine (Or.inl rfl) htake, cut_nil, find_nil_of_ne_nil hne]
    exact loads_failed rfl contents
  inner nextline value := by
    rw [continueValue_of_getline rfl (IStream.getline_opened_nil '\n' nextline)]
    exact ⟨rfl, loads_failed rfl⟩

theorem loadText_terminated {cf : Config} (hne : cf.delimiter ≠ []) {ls : List Text}
    (hls : ∀ l ∈ ls, '\n' ∉ l) :
    loadText (terminated '\n' ls) cf =
      { cf with contents := cf.contents.insertAll (segment cf.delimiter cf.comment ls) } := by
  have happ := loadText_append hne (tail_nil hne) (List.forall_mem_append.mpr ⟨hls, by simp⟩)
  simpa using happ

end PyCtp.Config
