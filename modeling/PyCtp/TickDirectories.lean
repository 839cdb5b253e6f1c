import PyCtp.DirectoryTrees
import PyCtp.SlashPaths
import PyCtp.TickFiles

/-!
# The directories of the tick files

`process_on_rtn_depth_market_data` on a tree of directories: it makes `TickDir` and then the
folder of the instrument, one level each, looks at neither result and writes through a stream
that need not be open.
-/
namespace PyCtp
open DirectoryTrees SlashPaths

namespace MdApi

section Directories
variable {π : Type*} [DecidableEq π] {parent : π → π} {bytes : Text → ℕ}

/-- The row of the tick was appended to its file, after a header or not. -/
def RowAppended {D : Type*} (fs : FileSystem D Text Char) (tickPath : Text)
    (md : CThostFtdcDepthMarketDataField) (d : D) : Prop :=
  ∃ header, (header = [] ∨ header = insertHead) ∧
    fs.contents (recordTick fs tickPath md d) (tickFile tickPath md.instrumentID) =
      fs.contents d (tickFile tickPath md.instrumentID) ++ (header ++ insertTick md)

/-- Among the directories there are and the two that the handler makes where it can, `TickDir`
first, is that of the tick file, and the tick file itself is none of them. -/
structure Prepared (place : Text → π) (tickPath instrumentID : Text) (d : Tree parent Char) :
    Prop where
  directory : d.Attained [place (instrumentFolder tickPath instrumentID), place tickPath]
    (parent (place (tickFile tickPath instrumentID)))
  not_directory : ¬d.Attained [place (instrumentFolder tickPath instrumentID), place tickPath]
    (place (tickFile tickPath instrumentID))

theorem insertTick_ne_nil (md : CThostFtdcDepthMarketDataField) : insertTick md ≠ [] := by
  intro h
  exact absurd (List.append_eq_nil_iff.mp h).2 (by decide)

theorem exists_header (md : CThostFtdcDepthMarketDataField) (size : ℕ) :
    ∃ header, (header = [] ∨ header = insertHead) ∧
      tickText md size = header ++ insertTick md := by
  rw [tickText]
  split
  · exact ⟨insertHead, .inr rfl, rfl⟩
  · exact ⟨[], .inl rfl, rfl⟩

/-- The row is appended if and only if the tick file opens after both directories were tried. -/
theorem rowAppended_iff_opens (place : Text → π) (tickPath : Text)
    (md : CThostFtdcDepthMarketDataField) (d : Tree parent Char) :
    RowAppended (fileSystem parent Char place bytes) tickPath md d ↔
      ((ensureAll place bytes
        [instrumentFolder tickPath md.instrumentID, tickPath] d).openAppend
          (place (tickFile tickPath md.instrumentID))).isSome := by
  have hsame := contents_ensureAll place bytes d
    [instrumentFolder tickPath md.instrumentID, tickPath] (tickFile tickPath md.instrumentID)
  rw [RowAppended, ← hsame]
  change (∃ header, _ ∧ (fileSystem parent Char place bytes).contents (insertData _ md _
    (ensureAll place bytes [instrumentFolder tickPath md.instrumentID, tickPath] d)) _ = _) ↔ _
  generalize ensureAll place bytes
    [instrumentFolder tickPath md.instrumentID, tickPath] d = made
  generalize tickFile tickPath md.instrumentID = file
  cases hopen : made.openAppend (place file) with
  | none =>
    have hnone : (fileSystem parent Char place bytes).openAppend made file = none := hopen
    refine iff_of_false ?_ (by simp)
    rintro ⟨header, -, h⟩
    rw [insertData, hnone] at h
    have hnil := List.append_right_eq_self.mp h.symm
    exact insertTick_ne_nil md (List.append_eq_nil_iff.mp hnil).2
  | some opened =>
    have hsome : (fileSystem parent Char place bytes).openAppend made file = some opened :=
      hopen
    refine iff_of_true ?_ rfl
    obtain ⟨header, hheader, htext⟩ :=
      exists_header md ((fileSystem parent Char place bytes).size opened file)
    refine ⟨header, hheader, ?_⟩
    obtain ⟨hfile, hbefore⟩ := Tree.openAppend_eq_some hopen
    have happend := Tree.contents_append hfile
      (tickText md ((fileSystem parent Char place bytes).size opened file))
    rw [hbefore] at happend
    rw [insertData, hsome, ← htext]
    exact happend

theorem opens_iff_prepared (place : Text → π) (tickPath instrumentID : Text)
    (d : Tree parent Char) :
    ((ensureAll place bytes [instrumentFolder tickPath instrumentID, tickPath] d).openAppend
        (place (tickFile tickPath instrumentID))).isSome ↔
      Prepared place tickPath instrumentID d := by
  have hplaces := ensureAll_places place bytes d
    [instrumentFolder tickPath instrumentID, tickPath]
  rw [Tree.openAppend_isSome, (hplaces _).1, (hplaces _).1]
  constructor
  · rintro ⟨hdir, hfile⟩
    exact ⟨hdir, hfile⟩
  · intro h
    exact ⟨h.directory, h.not_directory⟩

/-- The row of a tick is appended if and only if the directory of its file is there or made. -/
theorem rowAppended_iff_prepared (place : Text → π) (tickPath : Text)
    (md : CThostFtdcDepthMarketDataField) (d : Tree parent Char) :
    RowAppended (fileSystem parent Char place bytes) tickPath md d ↔
      Prepared place tickPath md.instrumentID d :=
  (rowAppended_iff_opens place tickPath md d).trans (opens_iff_prepared place tickPath _ d)

end Directories

section Slashes
variable {cwd : List Text} {tickPath instrumentID : Text} {bytes : Text → ℕ}

theorem proper_of_getLast {name : Text} (hne : name ≠ []) (h : name.getLast? ≠ some '.') :
    Proper name := by
  refine ⟨hne, ?_, ?_⟩
  · rintro rfl
    exact h rfl
  · rintro rfl
    exact h rfl

theorem place_tickFile (cwd : List Text) (hne : instrumentFolder tickPath instrumentID ≠ [])
    (hslash : '/' ∉ instrumentID) :
    place cwd (tickFile tickPath instrumentID) =
      (instrumentID ++ ".csv".toList) :: place cwd (instrumentFolder tickPath instrumentID) := by
  have hcsv : '/' ∉ instrumentID ++ ".csv".toList := by
    rw [List.mem_append, not_or]
    exact ⟨hslash, by decide⟩
  have hproper : Proper (instrumentID ++ ".csv".toList) := by
    apply proper_of_getLast
    · simp
    · rw [List.getLast?_append]
      exact fun h => absurd (Option.some.inj h) (by decide)
  have hpath : tickFile tickPath instrumentID =
      instrumentFolder tickPath instrumentID ++ '/' :: (instrumentID ++ ".csv".toList) := by
    simp [tickFile]
  rw [hpath, place_slash_name hne hcsv, enter_proper hproper]

theorem place_instrumentFolder (cwd : List Text) (hdot : tickPath.getLast? ≠ some '.')
    (hslash : '/' ∉ instrumentID) (hid : '.' ∉ instrumentID) :
    place cwd (instrumentFolder tickPath instrumentID) = place cwd tickPath ∨
      (∃ n, place cwd (instrumentFolder tickPath instrumentID) = n :: place cwd tickPath) ∨
      ∃ m n base, m ≠ n ∧ place cwd tickPath = m :: base ∧
        place cwd (instrumentFolder tickPath instrumentID) = n :: base := by
  have hsub : ∀ c ∈ instrumentType instrumentID, c ∈ instrumentID :=
    fun c hc => (List.takeWhile_prefix _).subset hc
  have htypeDot : (instrumentType instrumentID).getLast? ≠ some '.' :=
    fun h => hid (hsub _ (List.mem_of_getLast? h))
  obtain ⟨base, last, -, ⟨init, hinit⟩, hplace⟩ := exists_last cwd tickPath
  have hT := hplace [] List.not_mem_nil
  have hF := hplace (instrumentType instrumentID) fun hc => hslash (hsub _ hc)
  rw [List.append_nil, List.append_nil] at hT
  rw [instrumentFolder, hT, hF]
  by_cases htype : instrumentType instrumentID = []
  · rw [htype, List.append_nil]
    exact .inl rfl
  by_cases hlast : last = []
  · subst hlast
    rw [enter_nil, List.nil_append, enter_proper (proper_of_getLast htype htypeDot)]
    exact .inr (.inl ⟨_, rfl⟩)
  · have hlastDot : last.getLast? ≠ some '.' := by
      rwa [← hinit, List.getLast?_append_of_ne_nil _ hlast] at hdot
    have hboth : (last ++ instrumentType instrumentID).getLast? ≠ some '.' := by
      rwa [List.getLast?_append_of_ne_nil _ htype]
    rw [enter_proper (proper_of_getLast hlast hlastDot),
      enter_proper (proper_of_getLast (List.append_ne_nil_of_left_ne_nil hlast _) hboth)]
    exact .inr (.inr ⟨_, _, base, fun h => htype (List.append_right_eq_self.mp h.symm), rfl, rfl⟩)

theorem attained_folder {d : Tree List.tail Char} {folder top : List Text}
    (hfile : ¬d.IsFile top)
    (hshape : folder = top ∨ (∃ n, folder = n :: top) ∨
      ∃ m n base, m ≠ n ∧ top = m :: base ∧ folder = n :: base) :
    d.Attained [folder, top] folder ↔ d.IsDirectory top.tail ∧ ¬d.IsFile folder := by
  rcases hshape with rfl | ⟨n, rfl⟩ | ⟨m, n, base, hmn, rfl, rfl⟩
  · rw [Tree.attained_twice hfile, and_iff_left hfile]
  · exact Tree.attained_child (List.cons_ne_self n top) rfl hfile
  · apply Tree.attained_sibling
    · exact fun h => hmn (List.cons.inj h).1.symm
    · rfl
    · exact fun h => List.cons_ne_self m base h.symm

theorem prepared_ordinary_iff (hne : tickPath ≠ []) (hdot : tickPath.getLast? ≠ some '.')
    (hslash : '/' ∉ instrumentID) (hid : '.' ∉ instrumentID) {d : Tree List.tail Char}
    (hfile : ¬d.IsFile (place cwd tickPath)) :
    Prepared (place cwd) tickPath instrumentID d ↔
      d.IsDirectory (place cwd tickPath).tail ∧
        ¬d.IsFile (place cwd (instrumentFolder tickPath instrumentID)) ∧
        ¬d.IsDirectory (place cwd (tickFile tickPath instrumentID)) := by
  have hfolder : instrumentFolder tickPath instrumentID ≠ [] :=
    List.append_ne_nil_of_left_ne_nil hne _
  have hplace := place_tickFile cwd hfolder hslash
  have hshape := place_instrumentFolder cwd hdot hslash hid
  have hatt := attained_folder hfile hshape
  have hdeep : (place cwd tickPath).length ≤
      (place cwd (instrumentFolder tickPath instrumentID)).length := by
    rcases hshape with h | ⟨n, h⟩ | ⟨m, n, base, -, htop, h⟩
    · rw [h]
    · simp [h]
    · simp [h, htop]
  have hother : d.Attained [place cwd (instrumentFolder tickPath instrumentID), place cwd tickPath]
      (place cwd (tickFile tickPath instrumentID)) ↔
        d.IsDirectory (place cwd (tickFile tickPath instrumentID)) := by
    apply Tree.attained_of_ne
    · rw [hplace]
      exact List.cons_ne_self _ _
    · intro heq
      rw [← heq, hplace, List.length_cons] at hdeep
      omega
  have htail : (place cwd (tickFile tickPath instrumentID)).tail =
      place cwd (instrumentFolder tickPath instrumentID) := by
    rw [hplace, List.tail_cons]
  rw [← and_assoc, ← hatt, ← hother]
  constructor
  · intro h
    exact ⟨htail ▸ h.directory, h.not_directory⟩
  · rintro ⟨hdir, hno⟩
    exact ⟨htail.symm ▸ hdir, hno⟩

/-- For an instrument without slashes and dots the directory above `TickDir` must exist, and
neither a file nor a directory be in the way. -/
theorem rowAppended_ordinary_iff (hne : tickPath ≠ []) (hdot : tickPath.getLast? ≠ some '.')
    {md : CThostFtdcDepthMarketDataField} (hslash : '/' ∉ md.instrumentID)
    (hid : '.' ∉ md.instrumentID) {d : Tree List.tail Char}
    (hfile : ¬d.IsFile (place cwd tickPath)) :
    RowAppended (fileSystem List.tail Char (place cwd) bytes) tickPath md d ↔
      d.IsDirectory (place cwd tickPath).tail ∧
        ¬d.IsFile (place cwd (instrumentFolder tickPath md.instrumentID)) ∧
        ¬d.IsDirectory (place cwd (tickFile tickPath md.instrumentID)) := by
  rw [rowAppended_iff_opens, opens_iff_prepared]
  exact prepared_ordinary_iff hne hdot hslash hid hfile

def emptyDirectory : Tree (List.tail : List Text → List Text) Char where
  entry p := if p = [] then some .directory else none
  inside p h := by
    split at h
    · rename_i hp
      rw [hp]
      rfl
    · cases h

def firstTick : CThostFtdcDepthMarketDataField :=
  { CThostFtdcDepthMarketDataField.zeroFilled with instrumentID := "cu1709".toList }

/-- In an empty directory that of the shipped configuration is made. -/
example : RowAppended (fileSystem _ Char (place []) textBytes) "./Tick/".toList firstTick
    emptyDirectory := by
  rw [rowAppended_iff_opens]
  decide +kernel

/-- A nested one is not, and the row is lost. -/
theorem nested_not_appended :
    (∀ p, ¬emptyDirectory.IsFile p) ∧
      ¬RowAppended (fileSystem _ Char (place []) textBytes) "data/ticks/".toList firstTick
        emptyDirectory := by
  constructor
  · rintro p ⟨s, hs⟩
    have hentry : (if p = [] then some Entry.directory else none) = some (Entry.file s) := hs
    split at hentry
    · cases hentry
    · cases hentry
  · rw [rowAppended_iff_opens]
    decide +kernel

end Slashes

end MdApi
end PyCtp
