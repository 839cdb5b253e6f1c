import PyCtp.Config

/-!
# Reading configuration files into one `Config`

`ReadFile` sets the separator and the comment opener before it finds out whether the file
opens, and throws if it does not. A failed call leaves its separators behind: the next
successful call replaces them, a save or a load in between uses them.
-/
namespace PyCtp.Config

structure FileNotFound where
  filename : Text
  deriving DecidableEq

/-- `ReadFile`, where `disk` gives what the files that open hold. -/
def readFile (disk : Text → Option Text) (filename delimiter comment : Text) (cf : Config) :
    Except FileNotFound Unit × Config :=
  let cf := { cf with delimiter := delimiter, comment := comment }
  match disk (cStr filename) with
  | none => (.error ⟨filename⟩, cf)
  | some s => (.ok (), loadText s cf)

/-- A call of `ReadFile` and the disk at that moment. -/
structure ReadCall where
  disk : Text → Option Text
  filename : Text
  delimiter : Text
  comment : Text

namespace ReadCall

def succeeds (c : ReadCall) : Bool := (c.disk (cStr c.filename)).isSome

/-- The call on a configuration, its exception caught. -/
def apply (cf : Config) (c : ReadCall) : Config :=
  (readFile c.disk c.filename c.delimiter c.comment cf).2

end ReadCall

/-- The configuration after the given calls, every exception caught. -/
def afterCalls (calls : List ReadCall) (cf : Config) : Config := calls.foldl ReadCall.apply cf

/-- The failed calls leave no trace in the configuration, in what it saves as, or in how it
loads. -/
structure NoTrace (calls : List ReadCall) (cf : Config) : Prop where
  delimiter : (afterCalls calls cf).delimiter =
    (afterCalls (calls.filter ReadCall.succeeds) cf).delimiter
  comment : (afterCalls calls cf).comment =
    (afterCalls (calls.filter ReadCall.succeeds) cf).comment
  contents : (afterCalls calls cf).contents =
    (afterCalls (calls.filter ReadCall.succeeds) cf).contents
  save : (afterCalls calls cf).save = (afterCalls (calls.filter ReadCall.succeeds) cf).save
  load : ∀ is, load is (afterCalls calls cf) =
    load is (afterCalls (calls.filter ReadCall.succeeds) cf)

def lastSyntax (calls : List ReadCall) (cf : Config) : Text × Text :=
  match calls.getLast? with
  | none => (cf.delimiter, cf.comment)
  | some c => (c.delimiter, c.comment)

variable {c : ReadCall} {calls : List ReadCall} {cf : Config}

theorem eq_of_parts {cf' : Config} (hdelim : cf.delimiter = cf'.delimiter)
    (hcomm : cf.comment = cf'.comment) (hcontents : cf.contents = cf'.contents) : cf = cf' := by
  obtain ⟨delimiter, comment, contents⟩ := cf
  cases hdelim
  cases hcomm
  cases hcontents
  rfl

theorem apply_syntax (c : ReadCall) (cf : Config) :
    (c.apply cf).delimiter = c.delimiter ∧ (c.apply cf).comment = c.comment := by
  rw [ReadCall.apply, readFile]
  cases c.disk (cStr c.filename) <;> exact ⟨rfl, rfl⟩

theorem apply_contents_of_failed (h : c.succeeds = false) (cf : Config) :
    (c.apply cf).contents = cf.contents := by
  have hnone : c.disk (cStr c.filename) = none := by simpa [ReadCall.succeeds] using h
  rw [ReadCall.apply, readFile]
  simp only [hnone]

theorem apply_congr {cf' : Config} (h : cf.contents = cf'.contents) (c : ReadCall) :
    c.apply cf = c.apply cf' := by
  rw [ReadCall.apply, ReadCall.apply, readFile, readFile, h]

theorem afterCalls_concat (calls : List ReadCall) (c : ReadCall) (cf : Config) :
    afterCalls (calls ++ [c]) cf = c.apply (afterCalls calls cf) := List.foldl_concat ..

theorem afterCalls_syntax (calls : List ReadCall) (cf : Config) :
    ((afterCalls calls cf).delimiter, (afterCalls calls cf).comment) = lastSyntax calls cf := by
  induction calls using List.reverseRecOn with
  | nil => rfl
  | append_singleton calls c =>
    obtain ⟨hdelim, hcomm⟩ := apply_syntax c (afterCalls calls cf)
    rw [afterCalls_concat, hdelim, hcomm, lastSyntax, List.getLast?_concat]

theorem afterCalls_contents (calls : List ReadCall) (cf : Config) :
    (afterCalls calls cf).contents =
      (afterCalls (calls.filter ReadCall.succeeds) cf).contents := by
  induction calls using List.reverseRecOn with
  | nil => rfl
  | append_singleton calls c ih =>
    rw [afterCalls_concat, List.filter_append]
    cases hc : c.succeeds with
    | true =>
      rw [List.filter_cons_of_pos hc, List.filter_nil, afterCalls_concat, apply_congr ih]
    | false =>
      rw [List.filter_cons_of_neg (by simp [hc]), List.filter_nil, List.append_nil,
        apply_contents_of_failed hc, ih]

/-- The failed calls leave no trace if and only if the last call has the separators that the
successful ones leave. -/
theorem noTrace_iff (calls : List ReadCall) (cf : Config) :
    NoTrace calls cf ↔
      lastSyntax calls cf = lastSyntax (calls.filter ReadCall.succeeds) cf := by
  rw [← afterCalls_syntax, ← afterCalls_syntax, Prod.mk.injEq]
  constructor
  · intro h
    exact ⟨h.delimiter, h.comment⟩
  · rintro ⟨hdelim, hcomm⟩
    have hcontents := afterCalls_contents calls cf
    have hsame := eq_of_parts hdelim hcomm hcontents
    exact ⟨hdelim, hcomm, hcontents, congrArg save hsame, fun is => congrArg (load is) hsame⟩

def oneEntry : Config := { empty with contents := SortedMap.empty.insert "a".toList "1".toList }

def missingFile : ReadCall := ⟨fun _ => none, "missing.ini".toList, ":".toList, ";".toList⟩

/-- After it the entry is saved with the other separator. -/
theorem missingFile_trace :
    ¬NoTrace [missingFile] oneEntry ∧ oneEntry.save = "a = 1\n".toList ∧
      (afterCalls [missingFile] oneEntry).save = "a : 1\n".toList := by
  refine ⟨fun h => ?_, by decide, by decide⟩
  exact absurd h.delimiter (by decide)

end PyCtp.Config
