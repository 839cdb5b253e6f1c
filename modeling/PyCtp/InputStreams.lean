import PyCtp.TextScanning

/-!
# Input streams with end-of-file and failure bits

The state of a C++ input stream: the characters not yet extracted and the two
condition bits. `getline` is the extraction into a growing string, `getlineBuf`
the one into a buffer of fixed capacity. They treat an exhausted stream and an
overlong line differently, and both facts decide how reading loops end.
-/
namespace PyCtp

structure IStream (α : Type*) where
  rest : List α
  eofbit : Bool
  failbit : Bool
  deriving DecidableEq, Repr

namespace IStream
variable {α : Type*}

def opened (s : List α) : IStream α := ⟨s, false, false⟩

def unopened : IStream α := ⟨[], false, true⟩

def good (s : IStream α) : Bool := !s.eofbit && !s.failbit

/-- The stream converted to `bool`: the end of the file alone is not a failure. -/
def ok (s : IStream α) : Bool := !s.failbit

/-- What a reading loop consumes: characters left, and one last failing extraction. -/
def unread (s : IStream α) : ℕ := if s.failbit then 0 else s.rest.length + 1

variable [DecidableEq α]

/-- Extract up to the separator into a string. The string is cleared only when the
stream is good, so at the end of the file it keeps its old value. -/
def getline (sep : α) (s : IStream α) (str : List α) : IStream α × List α :=
  if s.good then
    let line := s.rest.takeWhile (· ≠ sep)
    match s.rest.dropWhile (· ≠ sep) with
    | _ :: rest => (⟨rest, false, false⟩, line)
    | [] => (⟨[], true, s.rest.isEmpty⟩, line)
  else ({ s with failbit := true }, str)

theorem getline_line {sep : α} {l : List α} (hl : sep ∉ l) (r str : List α) :
    getline sep (opened (l ++ sep :: r)) str = (opened r, l) := by
  have hne : ∀ c ∈ l, decide (c ≠ sep) = true := by
    intro c hc
    simpa using fun h : c = sep => hl (h ▸ hc)
  have hd : (l ++ sep :: r).dropWhile (· ≠ sep) = sep :: r := by
    rw [List.dropWhile_append_of_pos hne, List.dropWhile_cons_of_neg (by simp)]
  have ht : (l ++ sep :: r).takeWhile (· ≠ sep) = l := by
    rw [List.takeWhile_append_of_pos hne, List.takeWhile_cons_of_neg (by simp), List.append_nil]
  simp only [getline, opened, good, hd, ht]
  rfl

theorem getline_opened_nil (sep : α) (str : List α) :
    getline sep (opened []) str = (⟨[], true, true⟩, []) := rfl

theorem getline_unterminated {sep : α} {l : List α} (hl : sep ∉ l) (hne : l ≠ [])
    (str : List α) : getline sep (opened l) str = (⟨[], true, false⟩, l) := by
  have hall : ∀ c ∈ l, decide (c ≠ sep) = true := by
    intro c hc
    simpa using fun h : c = sep => hl (h ▸ hc)
  have hd : l.dropWhile (· ≠ sep) = [] := List.dropWhile_eq_nil_iff.mpr hall
  have ht : l.takeWhile (· ≠ sep) = l := List.takeWhile_eq_self_iff.mpr hall
  simp only [getline, opened, good, hd, ht]
  simp [hne]

theorem getline_of_not_good {sep : α} {s : IStream α} (h : s.good = false) (str : List α) :
    getline sep s str = ({ s with failbit := true }, str) := by simp [getline, h]

theorem getline_not_mem {sep : α} (s : IStream α) {str : List α} (h : sep ∉ str) :
    sep ∉ (getline sep s str).2 := by
  have ht : sep ∉ s.rest.takeWhile (· ≠ sep) := fun hm => by
    simpa using List.mem_takeWhile_imp hm
  rw [getline]
  split
  · dsimp only
    split <;> exact ht
  · exact h

theorem getline_unread_lt (sep : α) {s : IStream α} (h : s.ok = true) (str : List α) :
    (getline sep s str).1.unread < s.unread := by
  have hf : s.failbit = false := by simpa [ok] using h
  rw [getline]
  split
  · dsimp only
    split
    · rename_i c rest hd
      have hlen : (s.rest.dropWhile (· ≠ sep)).length ≤ s.rest.length :=
        (List.dropWhile_sublist _).length_le
      rw [hd, List.length_cons] at hlen
      simp only [unread, hf, Bool.false_eq_true, if_false]
      omega
    · cases hr : s.rest <;> simp [unread, hf, hr]
  · simp [unread, hf]

theorem getline_unread_le (sep : α) (s : IStream α) (str : List α) :
    (getline sep s str).1.unread ≤ s.unread := by
  cases h : s.ok with
  | true => exact (getline_unread_lt sep h str).le
  | false =>
    have hf : s.failbit = true := by simpa [ok] using h
    simp [getline, good, unread, hf]

inductive Stop
  | separator | eof | full
  deriving DecidableEq, Repr

/-- Store characters into a buffer with room for `k` more. -/
def fill (sep : α) : ℕ → List α → List α × List α × Stop
  | _, [] => ([], [], .eof)
  | k, c :: s =>
    if c = sep then ([], s, .separator)
    else match k with
      | 0 => ([], c :: s, .full)
      | k + 1 =>
        let (line, rest, stop) := fill sep k s
        (c :: line, rest, stop)

/-- Extract a line into a buffer of the given capacity, terminator included. A line
that does not fit sets the failure bit and leaves its remainder in the stream; on a
stream that is not good the buffer becomes empty. -/
def getlineBuf (sep : α) (capacity : ℕ) (s : IStream α) : IStream α × List α :=
  if s.good then
    match fill sep (capacity - 1) s.rest with
    | (line, rest, .separator) => (⟨rest, false, false⟩, line)
    | (line, rest, .eof) => (⟨rest, true, line.isEmpty⟩, line)
    | (line, rest, .full) => (⟨rest, false, true⟩, line)
  else ({ s with failbit := true }, [])

theorem fill_append {sep : α} {l : List α} (hl : sep ∉ l) {k : ℕ} (hk : l.length ≤ k)
    (s : List α) :
    fill sep k (l ++ s) =
      (l ++ (fill sep (k - l.length) s).1, (fill sep (k - l.length) s).2) := by
  induction l generalizing k with
  | nil => rfl
  | cons c l ih =>
    obtain ⟨hc, hl⟩ := not_or.mp (fun hm => hl (List.mem_cons.mpr hm))
    cases k with
    | zero => simp at hk
    | succ k =>
      have htail := ih hl (k := k) (by simpa using hk)
      simp [fill, Ne.symm hc, htail]

theorem fill_line {sep : α} {l : List α} (hl : sep ∉ l) {k : ℕ} (hk : l.length ≤ k)
    (r : List α) : fill sep k (l ++ sep :: r) = (l, r, .separator) := by
  have hsep : fill sep (k - l.length) (sep :: r) = ([], r, .separator) := by
    cases k - l.length <;> simp [fill]
  rw [fill_append hl hk, hsep, List.append_nil]

theorem fill_unterminated {sep : α} {l : List α} (hl : sep ∉ l) {k : ℕ} (hk : l.length ≤ k) :
    fill sep k l = (l, [], .eof) := by
  simpa [fill] using fill_append hl hk []

theorem fill_long {sep : α} {l : List α} (hl : sep ∉ l) {k : ℕ} (hk : k < l.length)
    (r : List α) : (fill sep k (l ++ r)).2.2 = .full := by
  have hlen : (l.take k).length = k := List.length_take_of_le hk.le
  have hfirst : sep ∉ l.take k := fun hm => hl (List.mem_of_mem_take hm)
  have hnext : sep ≠ l[k] := fun heq => hl (heq ▸ List.getElem_mem hk)
  have hl' : l ++ r = l.take k ++ (l[k] :: (l.drop (k + 1) ++ r)) := by
    rw [← List.cons_append, ← List.append_assoc, List.getElem_cons_drop, List.take_append_drop]
  rw [hl', fill_append hfirst hlen.le, hlen, Nat.sub_self, fill, if_neg hnext.symm]

theorem getlineBuf_unterminated {sep : α} {l : List α} (hl : sep ∉ l) {capacity : ℕ}
    (hk : l.length < capacity) : (getlineBuf sep capacity (opened l)).1.eofbit = true := by
  have hfill := fill_unterminated hl (k := capacity - 1) (by omega)
  simp [getlineBuf, opened, good, hfill]

theorem getlineBuf_long {sep : α} {l : List α} (hl : sep ∉ l) {capacity : ℕ}
    (hpos : 0 < capacity) (hk : capacity ≤ l.length) (r : List α) :
    (getlineBuf sep capacity (opened (l ++ r))).1.eofbit = false ∧
      (getlineBuf sep capacity (opened (l ++ r))).1.failbit = true := by
  have hstop := fill_long hl (k := capacity - 1) (by omega) r
  rcases hf : fill sep (capacity - 1) (l ++ r) with ⟨line, rest, stop⟩
  rw [hf] at hstop
  obtain rfl : stop = .full := hstop
  simp [getlineBuf, opened, good, hf]

theorem getlineBuf_line {sep : α} {l : List α} (hl : sep ∉ l) {capacity : ℕ}
    (hk : l.length < capacity) (r : List α) :
    getlineBuf sep capacity (opened (l ++ sep :: r)) = (opened r, l) := by
  have hfill := fill_line hl (k := capacity - 1) (by omega) r
  simp only [getlineBuf, opened, good, hfill]
  rfl

theorem fill_length (sep : α) (k : ℕ) (s : List α) :
    (fill sep k s).2.1.length ≤ s.length ∧
      ((fill sep k s).2.2 = .separator → (fill sep k s).2.1.length < s.length) := by
  induction s generalizing k with
  | nil => cases k <;> simp [fill]
  | cons c s ih =>
    by_cases hc : c = sep
    · cases k <;> simp [fill, hc]
    · cases k with
      | zero => simp [fill, hc]
      | succ k =>
        obtain ⟨hle, hlt⟩ := ih k
        have hfill : (fill sep (k + 1) (c :: s)).2 = (fill sep k s).2 := by simp [fill, hc]
        rw [hfill, List.length_cons]
        exact ⟨Nat.le_succ_of_le hle, fun hs => Nat.lt_succ_of_lt (hlt hs)⟩

theorem getlineBuf_opened (sep : α) (capacity : ℕ) (s : List α) :
    (∃ rest, rest.length < s.length ∧
        (getlineBuf sep capacity (opened s)).1 = opened rest) ∨
      (getlineBuf sep capacity (opened s)).1.eofbit = true ∨
      ((getlineBuf sep capacity (opened s)).1.eofbit = false ∧
        (getlineBuf sep capacity (opened s)).1.failbit = true) := by
  have hlen := (fill_length sep (capacity - 1) s).2
  rcases hf : fill sep (capacity - 1) s with ⟨line, rest, stop⟩
  rw [hf] at hlen
  cases stop with
  | separator => exact .inl ⟨rest, hlen rfl, by simp [getlineBuf, opened, good, hf]⟩
  | eof => exact .inr (.inl (by simp [getlineBuf, opened, good, hf]))
  | full => exact .inr (.inr (by simp [getlineBuf, opened, good, hf]))

theorem getlineBuf_opened_nil (sep : α) (capacity : ℕ) :
    getlineBuf sep capacity (opened []) = (⟨[], true, true⟩, []) := by
  cases h : capacity - 1 <;> simp [getlineBuf, opened, good, fill, h]

theorem getlineBuf_failed {sep : α} {s : IStream α} (h : s.failbit = true) (capacity : ℕ) :
    getlineBuf sep capacity s = (s, []) := by
  cases s
  simp_all [getlineBuf, good]

end IStream

/-- A text in which every given line is ended by the separator. -/
def terminated {α : Type*} (sep : α) (ls : List (List α)) : List α := ls.flatMap (· ++ [sep])

section
variable {α : Type*} (sep : α)

@[simp] theorem terminated_nil : terminated sep [] = [] := rfl

@[simp] theorem terminated_cons (l : List α) (ls : List (List α)) :
    terminated sep (l :: ls) = l ++ sep :: terminated sep ls := by
  simp [terminated]

/-- Ending the lines of a text and joining them differ by the last separator. -/
theorem terminated_cons_eq_joined (l : List α) (ls : List (List α)) :
    terminated sep (l :: ls) = l ++ ls.flatMap (sep :: ·) ++ [sep] := by
  induction ls generalizing l with
  | nil => simp
  | cons m ms ih =>
    rw [terminated_cons, ih, List.flatMap_cons]
    simp

theorem terminated_append (ls ms : List (List α)) :
    terminated sep (ls ++ ms) = terminated sep ls ++ terminated sep ms := by
  simp [terminated]

variable {sep}

theorem splitOn_terminated_append [BEq α] [LawfulBEq α] {ls : List (List α)}
    (h : ∀ l ∈ ls, sep ∉ l) {r : List α} (hr : sep ∉ r) :
    (terminated sep ls ++ r).splitOn sep = ls ++ [r] := by
  induction ls with
  | nil => simpa using List.splitOn_eq_singleton hr
  | cons l ls ih =>
    obtain ⟨hl, hls⟩ := List.forall_mem_cons.mp h
    rw [terminated_cons, List.append_assoc, List.cons_append,
      List.splitOn_append_cons_self_of_not_mem hl, ih hls, List.cons_append]

theorem splitOn_terminated [BEq α] [LawfulBEq α] {ls : List (List α)}
    (h : ∀ l ∈ ls, sep ∉ l) : (terminated sep ls).splitOn sep = ls ++ [[]] := by
  simpa using splitOn_terminated_append h (List.not_mem_nil (a := sep))

variable (sep) in
/-- Every text is a number of ended lines and a rest without the separator. -/
theorem exists_terminated_append [DecidableEq α] (s : List α) :
    ∃ ls r, s = terminated sep ls ++ r ∧ (∀ l ∈ ls, sep ∉ l) ∧ sep ∉ r := by
  induction s with
  | nil => exact ⟨[], [], by simp⟩
  | cons c s ih =>
    obtain ⟨ls, r, rfl, hls, hr⟩ := ih
    by_cases hc : c = sep
    · subst hc
      exact ⟨[] :: ls, r, by simp, List.forall_mem_cons.mpr ⟨List.not_mem_nil, hls⟩, hr⟩
    · cases ls with
      | nil => exact ⟨[], c :: r, by simp, by simp, by simpa using ⟨Ne.symm hc, hr⟩⟩
      | cons l ls =>
        obtain ⟨hl, hls⟩ := List.forall_mem_cons.mp hls
        have hcl : sep ∉ c :: l := by simpa using ⟨Ne.symm hc, hl⟩
        exact ⟨(c :: l) :: ls, r, by simp, List.forall_mem_cons.mpr ⟨hcl, hls⟩, hr⟩

end

end PyCtp
