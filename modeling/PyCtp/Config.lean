import PyCtp.InputStreams
import PyCtp.SortedMap
import Mathlib.Data.List.Lex
import Mathlib.Data.Char
import Mathlib.Tactic.Linarith

/-!
# The configuration file reader and writer

`Config` keeps the separator between key and value, the comment opener and the
extracted keys and values. `load` is the extraction `operator>>`, a loop over
entries around a loop over continuation lines; the two share the stream and the
read-ahead line, and the second one ends a value only after seeing the line that
follows it.
-/
namespace PyCtp
open TextScanning

/-- A string of the program: the sequence of its chars. -/
abbrev Text := List Char

structure Config where
  delimiter : Text
  comment : Text
  contents : SortedMap Text Text
  deriving DecidableEq

namespace Config

def isWhitespace (c : Char) : Bool :=
  c == ' ' || c == '\n' || c == '\t' || c == '\x0b' || c == '\r' || c == '\x0c'

def trim (s : Text) : Text := TextScanning.trim isWhitespace s

/-- The default constructor: separator `=`, comment opener `#`, no contents. -/
def empty : Config := ⟨"=".toList, "#".toList, .empty⟩

/-- The contents of a string up to the terminator that `c_str` puts after it. -/
def cStr (s : Text) : Text := s.takeWhile (· != '\x00')

theorem nul_not_mem_cStr (s : Text) : '\x00' ∉ cStr s := by
  intro h
  simpa using List.mem_takeWhile_imp h

theorem length_cStr_le (s : Text) : (cStr s).length ≤ s.length :=
  (List.takeWhile_sublist _).length_le

theorem cStr_of_no_nul {s : Text} (h : '\x00' ∉ s) : cStr s = s :=
  List.takeWhile_eq_self_iff.mpr fun c hc => by
    simpa using fun heq : c = '\x00' => h (heq ▸ hc)

theorem cStr_append_nul {s : Text} (h : '\x00' ∉ s) (rest : Text) :
    cStr (s ++ '\x00' :: rest) = s := by
  have hpos : ∀ c ∈ s, (c != '\x00') = true := fun c hc => by
    simpa using fun heq : c = '\x00' => h (heq ▸ hc)
  rw [cStr, List.takeWhile_append_of_pos hpos, List.takeWhile_cons_of_neg (by simp),
    List.append_nil]

/-- `Read` with a default: the value stored under a key, or the default without one. -/
def read (cf : Config) (key : Text) (value : Text) : Text :=
  (cf.contents.lookup key).getD value

/-- `operator<<`: one line start `key delimiter value` an entry, in key order. -/
def save (cf : Config) : Text :=
  cf.contents.entries.flatMap fun p =>
    p.1 ++ " ".toList ++ cf.delimiter ++ " ".toList ++ p.2 ++ "\n".toList

/-- Add a continuation line to a value: after a newline unless only whitespace is left. -/
def appendLine (line bare : Text) : Text :=
  (if trim bare = [] then line else line ++ "\n".toList) ++ bare

section Load
variable (delim comm : Text)

/-- The inner loop: append to the value in `line` the lines that continue it. Returns
the stream, the line read ahead (comment removed unless it is blank) and the value. -/
def continueValue (is : IStream Char) (nextline line : Text) : IStream Char × Text × Text :=
  if _h : is.ok = true then
    let next := is.getline '\n' nextline
    -- a blank line ends the value and stays in `nextline` as it was read
    if trim next.2 = [] then (next.1, next.2, line)
    else
      let bare := cut comm next.2
      if (find delim bare).isSome then (next.1, bare, line)
      else
        continueValue next.1 bare (appendLine line bare)
  else (is, nextline, line)
termination_by is.unread
decreasing_by exact IStream.getline_unread_lt '\n' _h _

theorem continueValue_unread_le (is : IStream Char) (nextline line : Text) :
    (continueValue delim comm is nextline line).1.unread ≤ is.unread := by
  induction is, nextline, line using continueValue.induct delim comm with
  | case1 is nextline line hok next hblank =>
    rw [continueValue, dif_pos hok, if_pos hblank]
    exact IStream.getline_unread_le '\n' is nextline
  | case2 is nextline line hok next hblank bare hdelim =>
    rw [continueValue, dif_pos hok, if_neg hblank, if_pos hdelim]
    exact IStream.getline_unread_le '\n' is nextline
  | case3 is nextline line hok next hblank bare hdelim ih =>
    rw [continueValue, dif_pos hok, if_neg hblank, if_neg hdelim]
    exact ih.trans (IStream.getline_unread_le '\n' is nextline)
  | case4 is nextline line hok => rw [continueValue, dif_neg hok]

theorem continueValue_unread_lt {is : IStream Char} (hok : is.ok = true)
    (nextline line : Text) :
    (continueValue delim comm is nextline line).1.unread < is.unread := by
  have hlt := IStream.getline_unread_lt '\n' hok nextline
  rw [continueValue, dif_pos hok]
  dsimp only
  split_ifs
  · exact hlt
  · exact hlt
  · exact (continueValue_unread_le delim comm _ _ _).trans_lt hlt

theorem continueValue_not_ok {is : IStream Char} (hok : is.ok = false)
    (nextline line : Text) :
    continueValue delim comm is nextline line = (is, nextline, line) := by
  rw [continueValue, dif_neg (by simp [hok])]

/-- The line an iteration of the outer loop works on: the one read ahead, or a new one. -/
def takeLine (is : IStream Char) (nextline : Text) : IStream Char × Text :=
  if nextline.length > 0 then (is, nextline) else is.getline '\n' []

/-- What is left to do: the unread characters, and the line read ahead if there is one. -/
def pending (is : IStream Char) (nextline : Text) : ℕ :=
  2 * is.unread + if nextline = [] then 0 else 1

theorem takeLine_pending_lt {is : IStream Char} {nextline : Text}
    (h : is.ok = true ∨ nextline.length > 0) :
    2 * (takeLine is nextline).1.unread < pending is nextline := by
  rw [takeLine, pending]
  by_cases hn : nextline = []
  · subst hn
    have hok : is.ok = true := by simpa using h
    have hlt := IStream.getline_unread_lt '\n' hok []
    simpa using hlt
  · have hl : nextline.length > 0 := List.length_pos_iff.mpr hn
    simp [hl, hn]

theorem continueValue_pending_lt (is : IStream Char) (nextline value : Text)
    (h : is.ok = true ∨ nextline.length > 0) :
    pending (continueValue delim comm (takeLine is nextline).1 [] value).1
      (continueValue delim comm (takeLine is nextline).1 [] value).2.1 < pending is nextline := by
  have hlt := takeLine_pending_lt h
  cases hok : (takeLine is nextline).1.ok with
  | true =>
    have hc := continueValue_unread_lt delim comm hok [] value
    have hb : (if (continueValue delim comm (takeLine is nextline).1 [] value).2.1 = []
        then 0 else 1) ≤ 1 := by split_ifs <;> omega
    unfold pending at hlt ⊢
    omega
  | false =>
    rw [continueValue_not_ok delim comm hok]
    simpa [pending] using hlt

/-- The outer loop, from the stream and the line read ahead. -/
def loadLoop (is : IStream Char) (nextline : Text) (contents : SortedMap Text Text) :
    IStream Char × SortedMap Text Text :=
  if _h : is.ok = true ∨ nextline.length > 0 then
    let read := takeLine is nextline
    let line := cut comm read.2
    match find delim line with
    | none => loadLoop read.1 [] contents
    | some delimPos =>
      let key := line.take delimPos
      let rest := continueValue delim comm read.1 [] (line.drop (delimPos + delim.length))
      loadLoop rest.1 rest.2.1 (contents.insert (trim key) (trim rest.2.2))
  else (is, contents)
termination_by pending is nextline
decreasing_by
  · simpa [pending] using takeLine_pending_lt _h
  · exact continueValue_pending_lt delim comm is nextline _ _h

end Load

/-- `operator>>`: load keys and values from a stream, over the contents there are. -/
def load (is : IStream Char) (cf : Config) : IStream Char × Config :=
  let loaded := loadLoop cf.delimiter cf.comment is [] cf.contents
  (loaded.1, { cf with contents := loaded.2 })

def loadText (s : Text) (cf : Config) : Config := (load (.opened s) cf).2

end Config
end PyCtp
