import PyCtp.ConfigSegmentation

/-!
# Saving and loading a configuration

The contents that `load` can produce are characterised by `WellFormed`: the writer
escapes nothing, so a key or value survives a save exactly when reading it back can
neither cut it nor let it absorb its neighbour. Every loaded configuration is of this
kind, whatever the text, and the well-formed ones are exactly those that are read back
unchanged.
-/
namespace PyCtp.Config
open TextScanning

/-- Trimmed, and without the separator, the comment opener or a newline. -/
structure WellFormedKey (k : Text) : Prop where
  trimmed : trim k = k
  no_delimiter : '=' ∉ k
  no_comment : '#' ∉ k
  no_newline : '\n' ∉ k

/-- Without the comment opener, and with later lines that can only continue a value. -/
structure Continued (v : Text) : Prop where
  no_comment : '#' ∉ v
  continued : ∀ l ∈ later '\n' v, trim l ≠ [] ∧ '=' ∉ l

structure WellFormedValue (v : Text) : Prop extends Continued v where
  trimmed : trim v = v

def WellFormed (m : SortedMap Text Text) : Prop :=
  ∀ e ∈ m.entries, WellFormedKey e.1 ∧ WellFormedValue e.2

/-! ## Every loaded configuration is well formed -/

theorem Continued.of_line {v : Text} (hn : '\n' ∉ v) (hc : '#' ∉ v) : Continued v :=
  ⟨hc, by simp [later_of_not_mem hn]⟩

theorem Continued.appendLine {v bare : Text} (h : Continued v) (hn : '\n' ∉ bare)
    (hc : '#' ∉ bare) (hd : '=' ∉ bare) : Continued (appendLine v bare) := by
  rw [Config.appendLine]
  by_cases hb : trim bare = []
  · rw [if_pos hb]
    refine ⟨by simp [h.no_comment, hc], fun l hl => ?_⟩
    rcases mem_later_append hn hl with hl | ⟨m, hm, rfl⟩
    · exact h.continued l hl
    · obtain ⟨hm, hdm⟩ := h.continued m hm
      have htrim : trim (m ++ bare) = trim m := trim_append_of_blank (trim_eq_nil_iff.mp hb)
      exact ⟨htrim ▸ hm, by simp [hdm, hd]⟩
  · rw [if_neg hb]
    refine ⟨by simp [h.no_comment, hc], fun l hl => ?_⟩
    have hl' : l ∈ later '\n' (v ++ '\n' :: bare) := by simpa using hl
    rw [later_append_sep, List.splitOn_eq_singleton hn] at hl'
    rcases List.mem_append.mp hl' with hl | hl
    · exact h.continued l hl
    · obtain rfl := List.mem_singleton.mp hl
      exact ⟨hb, hd⟩

theorem Continued.of_cons {c : Char} {v : Text} (h : Continued (c :: v)) : Continued v :=
  ⟨fun hm => h.no_comment (List.mem_cons_of_mem _ hm),
    fun l hl => h.continued l (mem_later_cons hl)⟩

theorem Continued.of_concat {c : Char} {v : Text} (h : Continued (v ++ [c]))
    (hw : isWhitespace c = true) : Continued v := by
  refine ⟨fun hm => h.no_comment (List.mem_append_left _ hm), fun l hl => ?_⟩
  by_cases hc : c = '\n'
  · subst hc
    have hnil : [] ∈ later '\n' (v ++ ['\n']) := by rw [later_append_sep]; simp
    exact absurd rfl (h.continued [] hnil).1
  · have hn : '\n' ∉ [c] := by simpa using Ne.symm hc
    rcases mem_later_of_append hn hl with hl | hl
    · exact h.continued l hl
    · obtain ⟨ht, hd⟩ := h.continued _ hl
      have htrim : trim (l ++ [c]) = trim l := trim_concat_of_blank hw l
      exact ⟨htrim ▸ ht, fun hm => hd (List.mem_append_left _ hm)⟩

theorem Continued.of_append_left {a v : Text} (h : Continued (a ++ v)) : Continued v := by
  induction a with
  | nil => exact h
  | cons c a ih => exact ih h.of_cons

theorem Continued.of_append_right {v b : Text} (h : Continued (v ++ b))
    (hb : ∀ c ∈ b, isWhitespace c = true) : Continued v := by
  induction b using List.reverseRecOn with
  | nil => simpa using h
  | append_singleton b c ih =>
    rw [← List.append_assoc] at h
    exact ih (h.of_concat (hb c (by simp))) (fun d hd => hb d (by simp [hd]))

theorem Continued.trim {v : Text} (h : Continued v) : WellFormedValue (trim v) := by
  obtain ⟨a, b, hv, -, hb⟩ := trim_decompose isWhitespace v
  rw [hv, List.append_assoc] at h
  exact ⟨h.of_append_left.of_append_right hb, trim_trim v⟩

theorem continueValue_continued (is : IStream Char) {nextline line : Text}
    (hn : '\n' ∉ nextline) (hl : Continued line) :
    '\n' ∉ (continueValue "=".toList "#".toList is nextline line).2.1 ∧
      Continued (continueValue "=".toList "#".toList is nextline line).2.2 := by
  induction is, nextline, line using continueValue.induct "=".toList "#".toList with
  | case1 is nextline line hok next hblank =>
    rw [continueValue, dif_pos hok, if_pos hblank]
    exact ⟨IStream.getline_not_mem is hn, hl⟩
  | case2 is nextline line hok next hblank bare hdelim =>
    rw [continueValue, dif_pos hok, if_neg hblank, if_pos hdelim]
    exact ⟨fun hm => IStream.getline_not_mem is hn (mem_of_mem_cut hm), hl⟩
  | case3 is nextline line hok next hblank bare hdelim ih =>
    rw [continueValue, dif_pos hok, if_neg hblank, if_neg hdelim]
    have hbn : '\n' ∉ bare := fun hm => IStream.getline_not_mem is hn (mem_of_mem_cut hm)
    have hbd : '=' ∉ bare := find_singleton_eq_none_iff.mp (by simpa using hdelim)
    exact ih hbn (hl.appendLine hbn (not_mem_cut_singleton '#' next.2) hbd)
  | case4 is nextline line hok =>
    rw [continueValue, dif_neg hok]
    exact ⟨hn, hl⟩

theorem takeLine_no_newline (is : IStream Char) {nextline : Text} (hn : '\n' ∉ nextline) :
    '\n' ∉ (takeLine is nextline).2 := by
  rw [takeLine]
  split_ifs
  · exact hn
  · exact IStream.getline_not_mem is (by simp)

theorem wellFormedKey_take {line : Text} (hn : '\n' ∉ line) {p : ℕ}
    (h : find "=".toList (cut "#".toList line) = some p) :
    WellFormedKey (trim ((cut "#".toList line).take p)) := by
  refine ⟨trim_trim _, fun hm => ?_, fun hm => ?_, fun hm => ?_⟩
  · exact not_mem_take_of_find h (mem_of_mem_trim hm)
  · exact not_mem_cut_singleton '#' line (List.mem_of_mem_take (mem_of_mem_trim hm))
  · exact hn (mem_of_mem_cut (List.mem_of_mem_take (mem_of_mem_trim hm)))

theorem WellFormed.insert {m : SortedMap Text Text} (h : WellFormed m) {k v : Text}
    (hk : WellFormedKey k) (hv : WellFormedValue v) : WellFormed (m.insert k v) := by
  intro e he
  rcases SortedMap.mem_insert he with rfl | he
  · exact ⟨hk, hv⟩
  · exact h e he

theorem loadLoop_wellFormed (is : IStream Char) {nextline : Text} (hn : '\n' ∉ nextline)
    {contents : SortedMap Text Text} (hm : WellFormed contents) :
    WellFormed (loadLoop "=".toList "#".toList is nextline contents).2 := by
  induction is, nextline, contents using loadLoop.induct "=".toList "#".toList with
  | case1 is nextline contents hcont read line hnone ih =>
    rw [loadLoop, dif_pos hcont]
    simp only [read, line] at hnone
    simp only [hnone]
    exact ih (by simp) hm
  | case2 is nextline contents hcont read line delimPos hsome key rest ih =>
    rw [loadLoop, dif_pos hcont]
    have hline := takeLine_no_newline is hn
    simp only [read, line] at hsome
    simp only [hsome]
    have hval : Continued (line.drop (delimPos + "=".toList.length)) :=
      .of_line (fun h => hline (mem_of_mem_cut (List.mem_of_mem_drop h)))
        (fun h => not_mem_cut_singleton '#' read.2 (List.mem_of_mem_drop h))
    have hrest := continueValue_continued read.1 List.not_mem_nil hval
    exact ih hrest.1 (hm.insert (wellFormedKey_take hline hsome) hrest.2.trim)
  | case3 is nextline contents hcont =>
    rw [loadLoop, dif_neg hcont]
    exact hm

theorem wellFormed_empty : WellFormed SortedMap.empty := by
  intro e he
  cases he

theorem loadText_wellFormed (s : Text) : WellFormed (loadText s empty).contents :=
  loadLoop_wellFormed (.opened s) (by simp) wellFormed_empty

/-! ## Well-formed contents are read back -/

def entryLines (e : Text × Text) : List Text :=
  (e.1 ++ " = ".toList ++ (e.2.splitOn '\n').headD []) :: later '\n' e.2

theorem save_eq_terminated (comment : Text) (m : SortedMap Text Text) :
    save ⟨"=".toList, comment, m⟩ = terminated '\n' (m.entries.flatMap entryLines) := by
  rw [save]
  dsimp only
  induction m.entries with
  | nil => rfl
  | cons e es ih =>
    obtain ⟨l, hs, he, -, -⟩ := joined_splitOn '\n' e.2
    rw [List.flatMap_cons, List.flatMap_cons, terminated_append, ← ih, entryLines, hs,
      terminated_cons_eq_joined, List.headD_cons]
    congr 1
    conv_lhs => rw [he]
    simp

theorem entryLines_no_newline {e : Text × Text} (hk : WellFormedKey e.1) :
    ∀ l ∈ entryLines e, '\n' ∉ l := by
  obtain ⟨l, hs, -, hl, hls⟩ := joined_splitOn '\n' e.2
  intro m hm
  rcases List.mem_cons.mp hm with rfl | hm
  · rw [hs]
    simpa using ⟨hk.no_newline, hl⟩
  · exact hls m hm

theorem find_entryLine {k v : Text} (hk : WellFormedKey k) (hv : '#' ∉ v) :
    cut "#".toList (k ++ " = ".toList ++ v) = k ++ " = ".toList ++ v ∧
      find "=".toList (k ++ " = ".toList ++ v) = some (k ++ " ".toList).length := by
  constructor
  · refine cut_singleton_of_not_mem (c := '#') ?_
    simpa using ⟨hk.no_comment, hv⟩
  · have hn : '=' ∉ k ++ " ".toList := by simpa using hk.no_delimiter
    have h := find_singleton_append hn (" ".toList ++ v)
    simpa using h

theorem absorb_later {ls rest : List Text} (value : Text)
    (hls : ∀ l ∈ ls, '#' ∉ l ∧ trim l ≠ [] ∧ '=' ∉ l)
    (hrest : ∀ l ls', rest = l :: ls' → (find "=".toList (cut "#".toList l)).isSome = true) :
    absorb "=".toList "#".toList value (ls ++ rest) =
      (value ++ ls.flatMap ('\n' :: ·), rest) := by
  induction ls generalizing value with
  | nil =>
    cases rest with
    | nil => simp [absorb]
    | cons l ls =>
      rw [List.nil_append, absorb, if_pos (Or.inr (hrest l ls rfl)), List.flatMap_nil,
        List.append_nil]
  | cons l ls ih =>
    obtain ⟨⟨hc, ht, hd⟩, hls⟩ := List.forall_mem_cons.mp hls
    have hcut : cut "#".toList l = l := cut_singleton_of_not_mem hc
    have hfind : find "=".toList l = none := find_singleton_eq_none_iff.mpr hd
    rw [List.cons_append, absorb, hcut, hfind, if_neg (by simpa using ht), ih _ hls,
      appendLine, if_neg ht]
    simp

theorem exists_entryLines {e : Text × Text} (hv : WellFormedValue e.2) :
    ∃ l, entryLines e = (e.1 ++ " = ".toList ++ l) :: later '\n' e.2 ∧
      e.2 = l ++ (later '\n' e.2).flatMap ('\n' :: ·) ∧ '#' ∉ l ∧
      ∀ m ∈ later '\n' e.2, '#' ∉ m ∧ trim m ≠ [] ∧ '=' ∉ m := by
  obtain ⟨l, hs, he, -, -⟩ := joined_splitOn '\n' e.2
  have hsub : '#' ∉ l ++ (later '\n' e.2).flatMap ('\n' :: ·) := he ▸ hv.no_comment
  refine ⟨l, by rw [entryLines, hs, List.headD_cons], he, ?_, fun m hm => ⟨?_, hv.continued m hm⟩⟩
  · exact fun hl => hsub (List.mem_append_left _ hl)
  · intro hcm
    exact hsub (List.mem_append_right _ (List.mem_flatMap.mpr ⟨m, hm, by simp [hcm]⟩))

theorem find_flatMap_entryLines {es : List (Text × Text)}
    (h : ∀ e ∈ es, WellFormedKey e.1 ∧ WellFormedValue e.2) (l : Text) (ls : List Text)
    (hl : es.flatMap entryLines = l :: ls) :
    (find "=".toList (cut "#".toList l)).isSome = true := by
  cases es with
  | nil => cases hl
  | cons e es =>
    obtain ⟨⟨hk, hv⟩, -⟩ := List.forall_mem_cons.mp h
    obtain ⟨v, hlines, -, hcv, -⟩ := exists_entryLines hv
    obtain ⟨hcut, hfind⟩ := find_entryLine hk hcv
    rw [List.flatMap_cons, hlines, List.cons_append] at hl
    obtain ⟨rfl, -⟩ := List.cons.inj hl
    rw [hcut, hfind]
    rfl

/-- An entry's first line and the lines after it that its value absorbs. -/
theorem segment_entryLine {k v : Text} (hk : WellFormedKey k) (hv : '#' ∉ v) (ls : List Text) :
    segment "=".toList "#".toList ((k ++ " = ".toList ++ v) :: ls) =
      (k, trim (absorb "=".toList "#".toList (" ".toList ++ v) ls).1) ::
        segment "=".toList "#".toList (absorb "=".toList "#".toList (" ".toList ++ v) ls).2 := by
  obtain ⟨hcut, hfind⟩ := find_entryLine hk hv
  have hline : k ++ " = ".toList ++ v = (k ++ " ".toList) ++ ("= ".toList ++ v) := by simp
  have hdrop : (k ++ " = ".toList ++ v).drop ((k ++ " ".toList).length + "=".toList.length) =
      " ".toList ++ v := by
    rw [hline, List.drop_length_add_append]
    rfl
  have htake : (k ++ " = ".toList ++ v).take (k ++ " ".toList).length = k ++ " ".toList := by
    rw [hline, List.take_left]
  have hkey : trim (k ++ " ".toList) = k := (trim_concat_of_blank rfl k).trans hk.trimmed
  rw [segment_cons_of_some (by rw [hcut, hfind]), hcut, hdrop, htake, hkey]

theorem segment_entryLines {es : List (Text × Text)}
    (h : ∀ e ∈ es, WellFormedKey e.1 ∧ WellFormedValue e.2) :
    segment "=".toList "#".toList (es.flatMap entryLines) = es := by
  induction es with
  | nil => simp [segment]
  | cons e es ih =>
    obtain ⟨⟨hk, hv⟩, hes⟩ := List.forall_mem_cons.mp h
    obtain ⟨l, hlines, he, hcl, hlater⟩ := exists_entryLines hv
    have habs := absorb_later (" ".toList ++ l) hlater (find_flatMap_entryLines hes)
    have hvalue : " ".toList ++ l ++ (later '\n' e.2).flatMap ('\n' :: ·) = ' ' :: e.2 := by
      rw [List.append_assoc, ← he]
      rfl
    have hval : trim (' ' :: e.2) = e.2 := trim_cons_concat hv.trimmed rfl
    rw [List.flatMap_cons, hlines, List.cons_append, segment_entryLine hk hcl, habs, ih hes,
      hvalue, hval]

theorem loadText_save {m : SortedMap Text Text} (h : WellFormed m) :
    loadText (save ⟨"=".toList, "#".toList, m⟩) empty = ⟨"=".toList, "#".toList, m⟩ := by
  have hlines : ∀ l ∈ m.entries.flatMap entryLines, '\n' ∉ l := by
    intro l hl
    obtain ⟨e, he, hl⟩ := List.mem_flatMap.mp hl
    exact entryLines_no_newline (h e he).1 l hl
  rw [save_eq_terminated, loadText_terminated (by simp [empty]) hlines]
  change (⟨_, _, SortedMap.empty.insertAll (segment "=".toList "#".toList _)⟩ : Config) = _
  rw [segment_entryLines h, SortedMap.insertAll_empty]
  rfl

/-- Loading always gives well-formed contents, and these are exactly the contents that
saving and loading gives back; so every loaded configuration survives a save. -/
theorem save_load_round_trip :
    (∀ s, WellFormed (loadText s empty).contents) ∧
    (∀ m, (loadText (save ⟨"=".toList, "#".toList, m⟩) empty).contents = m ↔ WellFormed m) ∧
    ∀ s, loadText (save (loadText s empty)) empty = loadText s empty := by
  refine ⟨loadText_wellFormed, fun m => ⟨fun h => ?_, fun h => ?_⟩, fun s => ?_⟩
  · rw [← h]
    exact loadText_wellFormed _
  · rw [loadText_save h]
  · exact loadText_save (loadText_wellFormed s)

end PyCtp.Config
