import PyCtp.FileSystems
import PyCtp.InputStreams
import PyCtp.TickRows

/-!
# The tick files

`process_on_rtn_depth_market_data` on the disk: the file of a tick is named after its
instrument, in a folder named after the part of the name before its first digit. Different
instruments have different files, and each tick adds one row to one file.
-/
namespace PyCtp
namespace MdApi

/-- The instrument's name up to its first digit. -/
def instrumentType (instrumentID : Text) : Text := instrumentID.takeWhile (!·.isDigit)

def instrumentFolder (tickPath instrumentID : Text) : Text :=
  tickPath ++ instrumentType instrumentID

def tickFile (tickPath instrumentID : Text) : Text :=
  instrumentFolder tickPath instrumentID ++ "/".toList ++ instrumentID ++ ".csv".toList

section Names

theorem isDigit_of_mem_instrumentType {s : Text} {c : Char} (h : c ∈ instrumentType s) :
    c.isDigit = false := by
  simpa using List.mem_takeWhile_imp h

theorem takeWhile_instrumentType_slash (s : Text) :
    (instrumentType s ++ '/' :: s).takeWhile (!·.isDigit) =
      instrumentType s ++ '/' :: instrumentType s := by
  have hpos : ∀ c ∈ instrumentType s, (!c.isDigit) = true := fun c hc => by
    rw [isDigit_of_mem_instrumentType hc]
    rfl
  rw [List.takeWhile_append_of_pos hpos, List.takeWhile_cons_of_pos (by rfl)]
  rfl

/-- The name of an instrument is read back from the name of its file. -/
theorem instrumentID_of_tickFile {tickPath a b : Text}
    (h : tickFile tickPath a = tickFile tickPath b) : a = b := by
  have hslash : instrumentType a ++ '/' :: a = instrumentType b ++ '/' :: b := by
    simpa [instrumentFolder] using List.append_cancel_right h
  have htypes : instrumentType a ++ '/' :: instrumentType a =
      instrumentType b ++ '/' :: instrumentType b := by
    rw [← takeWhile_instrumentType_slash, ← takeWhile_instrumentType_slash, hslash]
  have hlen : (instrumentType a).length = (instrumentType b).length := by
    have h2 := congrArg List.length htypes
    simp only [List.length_append, List.length_cons] at h2
    omega
  exact (List.cons.inj (List.append_inj hslash hlen).2).2

/-- Whatever the names are, different instruments have different tick files. -/
theorem tickFile_injective (tickPath : Text) : Function.Injective (tickFile tickPath) := by
  intro a b h
  exact instrumentID_of_tickFile h

end Names

/-- The bytes of a character in a tick file: a newline becomes a carriage return and a line feed,
and the characters of the header that are no bytes themselves have two. -/
def charBytes (c : Char) : ℕ := if c = '\n' ∨ 256 ≤ c.toNat then 2 else 1

def textBytes (s : Text) : ℕ := (s.map charBytes).sum

theorem textBytes_append (s t : Text) : textBytes (s ++ t) = textBytes s + textBytes t := by
  simp [textBytes]

theorem length_le_textBytes (s : Text) : s.length ≤ textBytes s := by
  induction s with
  | nil => exact le_rfl
  | cons c s ih =>
    have hone : 1 ≤ charBytes c := by
      rw [charBytes]
      split <;> omega
    rw [textBytes] at ih
    simp only [textBytes, List.map_cons, List.sum_cons, List.length_cons]
    omega

theorem textBytes_eq_zero_iff (s : Text) : textBytes s = 0 ↔ s = [] := by
  constructor
  · intro h
    have hle := length_le_textBytes s
    exact List.length_eq_zero_iff.mp (by omega)
  · rintro rfl
    rfl

/-- The disk of files alone, with text as the program writes it. -/
def flatDisk : FileSystem (Text → Text) Text Char := .flat textBytes

theorem flatDisk_reliable : flatDisk.Reliable :=
  FileSystem.flat_reliable textBytes_append textBytes_eq_zero_iff

/-- The write position `tellp` of a stream at the end of a file of the given size, cast to
`int`. -/
def tellp (size : ℕ) : ℤ := (size : ℤ).bmod (2 ^ 32)

section Write
variable {D : Type*} (fs : FileSystem D Text Char)

/-- What `insert_data` appends to a file of the given size. -/
def tickText (md : CThostFtdcDepthMarketDataField) (size : ℕ) : Text :=
  if tellp size = 0 then insertHead ++ insertTick md else insertTick md

/-- `insert_data`; writing to a stream that did not open has no effect. -/
def insertData (md : CThostFtdcDepthMarketDataField) (file : Text) (d : D) : D :=
  match fs.openAppend d file with
  | none => d
  | some d => fs.append d file (tickText md (fs.size d file))

def recordTick (tickPath : Text) (md : CThostFtdcDepthMarketDataField) (d : D) : D :=
  let d := fs.ensure d tickPath
  let d := fs.ensure d (instrumentFolder tickPath md.instrumentID)
  insertData fs md (tickFile tickPath md.instrumentID) d

def appendTick (bytes : Text → ℕ) (file : Text × ℕ) (md : CThostFtdcDepthMarketDataField) :
    Text × ℕ :=
  (file.1 ++ tickText md file.2, file.2 + bytes (tickText md file.2))

variable {fs}

theorem file_insertData (hfs : fs.Reliable) (md : CThostFtdcDepthMarketDataField)
    (file : Text) (d : D) :
    fs.file (insertData fs md file d) file = appendTick fs.bytes (fs.file d file) md ∧
      ∀ q, q ≠ file → fs.file (insertData fs md file d) q = fs.file d q := by
  obtain ⟨d', hd, hsame⟩ := hfs.openAppend d file
  obtain ⟨hcontents, hsize⟩ := Prod.mk.inj (hsame file)
  simp only [insertData, hd]
  refine ⟨?_, fun q hq => ?_⟩
  · rw [hfs.append, hcontents, hsize]
    rfl
  · rw [hfs.append_other _ _ _ _ hq, hsame]

theorem file_recordTick (hfs : fs.Reliable) (tickPath : Text)
    (md : CThostFtdcDepthMarketDataField) (d : D) (q : Text) :
    fs.file (recordTick fs tickPath md d) q =
      if q = tickFile tickPath md.instrumentID then appendTick fs.bytes (fs.file d q) md
      else fs.file d q := by
  have hensure : ∀ p, fs.file (fs.ensure (fs.ensure d tickPath)
      (instrumentFolder tickPath md.instrumentID)) p = fs.file d p := fun p => by
    rw [hfs.ensure, hfs.ensure]
  have h := file_insertData hfs md (tickFile tickPath md.instrumentID)
    (fs.ensure (fs.ensure d tickPath) (instrumentFolder tickPath md.instrumentID))
  split
  · rename_i hq
    rw [hq, recordTick, h.1, hensure]
  · rename_i hq
    rw [recordTick, h.2 q hq, hensure]

theorem contents_recordTick (hfs : fs.Reliable) (tickPath : Text)
    (md : CThostFtdcDepthMarketDataField) (d : D) (q : Text) :
    fs.contents (recordTick fs tickPath md d) q =
      if q = tickFile tickPath md.instrumentID then
        fs.contents d q ++ tickText md (fs.size d q)
      else fs.contents d q := by
  have hfile := congrArg Prod.fst (file_recordTick hfs tickPath md d q)
  rw [apply_ite Prod.fst] at hfile
  exact hfile

end Write

/-- A text grown by one row for each of the given ticks, in order, some of them after a
header line. -/
inductive Grown (before : Text) : List CThostFtdcDepthMarketDataField → Text → Prop
  | refl : Grown before [] before
  | row {mds s} (md) : Grown before mds s → Grown before (mds ++ [md]) (s ++ insertTick md)
  | headed {mds s} (md) :
    Grown before mds s → Grown before (mds ++ [md]) (s ++ (insertHead ++ insertTick md))

theorem Grown.tickText {before s : Text} {mds : List CThostFtdcDepthMarketDataField}
    (h : Grown before mds s) (md : CThostFtdcDepthMarketDataField) (size : ℕ) :
    Grown before (mds ++ [md]) (s ++ tickText md size) := by
  rw [MdApi.tickText]
  split
  · exact h.headed md
  · exact h.row md

/-- The complete lines of a text, header lines left aside. -/
def dataRows (s : Text) : List Text :=
  (s.splitOn '\n').dropLast.filter (· ≠ headLine)

theorem dataRows_terminated {ls : List Text} (h : ∀ l ∈ ls, '\n' ∉ l) :
    dataRows (terminated '\n' ls) = ls.filter (· ≠ headLine) := by
  rw [dataRows, splitOn_terminated h, List.dropLast_concat]

theorem Grown.exists_lines {ls : List Text} {s : Text} {mds : List CThostFtdcDepthMarketDataField}
    (h : Grown (terminated '\n' ls) mds s) (hmds : ∀ md ∈ mds, OneLine md) :
    ∃ new, s = terminated '\n' (ls ++ new) ∧ (∀ l ∈ new, '\n' ∉ l) ∧
      new.filter (· ≠ headLine) = mds.map tickLine := by
  induction h with
  | refl => exact ⟨[], by simp, by simp, rfl⟩
  | row md _ ih =>
    obtain ⟨hmds, hmd⟩ := List.forall_mem_append.mp hmds
    obtain ⟨new, rfl, hnew, hrows⟩ := ih hmds
    have hline := (hmd md (by simp)).tickLine
    refine ⟨new ++ [tickLine md], ?_, ?_, ?_⟩
    · simp [terminated_append, insertTick]
    · exact List.forall_mem_append.mpr ⟨hnew, by simpa using hline⟩
    · rw [List.filter_append, hrows, List.map_append]
      simp [tickLine_ne_headLine]
  | headed md _ ih =>
    obtain ⟨hmds, hmd⟩ := List.forall_mem_append.mp hmds
    obtain ⟨new, rfl, hnew, hrows⟩ := ih hmds
    have hline := (hmd md (by simp)).tickLine
    refine ⟨new ++ [headLine, tickLine md], ?_, ?_, ?_⟩
    · simp [terminated_append, insertTick, insertHead]
    · exact List.forall_mem_append.mpr ⟨hnew, by simpa using ⟨headLine_oneLine, hline⟩⟩
    · rw [List.filter_append, hrows, List.map_append]
      simp [tickLine_ne_headLine]

theorem Grown.dataRows {ls : List Text} {s : Text} {mds : List CThostFtdcDepthMarketDataField}
    (h : Grown (terminated '\n' ls) mds s) (hls : ∀ l ∈ ls, '\n' ∉ l)
    (hmds : ∀ md ∈ mds, OneLine md) :
    dataRows s = dataRows (terminated '\n' ls) ++ mds.map tickLine := by
  obtain ⟨new, rfl, hnew, hrows⟩ := h.exists_lines hmds
  rw [dataRows_terminated hls, dataRows_terminated (List.forall_mem_append.mpr ⟨hls, hnew⟩),
    List.filter_append, hrows]

end MdApi
end PyCtp
