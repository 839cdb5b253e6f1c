import PyCtp.TickFiles

/-!
# The header of a tick file

`insert_data` takes a file for empty if its write position, narrowed to an `int`, is zero.
A file whose size in bytes is a multiple of `2 ^ 32` passes for an empty one.
-/
namespace PyCtp
namespace MdApi

theorem tellp_eq_zero_iff (size : ℕ) : tellp size = 0 ↔ 2 ^ 32 ∣ size := by
  have hbmod : ∀ m n : ℕ, (n : ℤ).bmod m = 0 ↔ m ∣ n := fun m n => by
    rw [← Int.dvd_iff_bmod_eq_zero, Int.natCast_dvd_natCast]
  exact hbmod (2 ^ 32) size

/-- The narrowed size is zero only for the empty file. -/
def SizeSeen (file : Text × ℕ) : Prop := file.1 = [] ∨ ¬2 ^ 32 ∣ file.2

theorem insertHead_ne_nil : insertHead ≠ [] := fun h =>
  absurd (List.append_eq_nil_iff.mp h).2 (by decide)

theorem tickText_eq_iff (md : CThostFtdcDepthMarketDataField) {s : Text} {size : ℕ}
    (hempty : s = [] → size = 0) :
    tickText md size = (if s = [] then insertHead else []) ++ insertTick md ↔
      SizeSeen (s, size) := by
  rw [tickText, SizeSeen]
  simp only [tellp_eq_zero_iff]
  by_cases hs : s = []
  · have hzero : 2 ^ 32 ∣ size := by rw [hempty hs]; exact dvd_zero _
    rw [if_pos hzero, if_pos hs]
    exact iff_of_true rfl (.inl hs)
  · rw [if_neg hs, List.nil_append]
    by_cases hsize : 2 ^ 32 ∣ size
    · rw [if_pos hsize]
      refine iff_of_false (fun h => insertHead_ne_nil ?_) (not_or.mpr ⟨hs, not_not.mpr hsize⟩)
      exact List.append_cancel_right (h.trans (List.nil_append _).symm)
    · rw [if_neg hsize]
      exact iff_of_true rfl (.inr hsize)

section Inserted
variable {D : Type*} (fs : FileSystem D Text Char) (file : Text)

/-- The header is written if and only if the file is empty, and then before the row. -/
def HeaderIfEmpty (md : CThostFtdcDepthMarketDataField) (d : D) : Prop :=
  fs.contents (insertData fs md file d) file =
    fs.contents d file ++ ((if fs.contents d file = [] then insertHead else []) ++ insertTick md)

def insertTicks (mds : List CThostFtdcDepthMarketDataField) (d : D) : D :=
  mds.foldl (fun d md => insertData fs md file d) d

/-- Every tick finds a file whose size is seen as it is. -/
def SizesSeen (mds : List CThostFtdcDepthMarketDataField) (d : D) : Prop :=
  ∀ before md after, mds = before ++ md :: after →
    SizeSeen (fs.file (insertTicks fs file before d) file)

/-- The header is the first line of the text and no other line. -/
def HeaderFirst (s : Text) : Prop :=
  ∃ rows, (s.splitOn '\n').dropLast = headLine :: rows ∧ headLine ∉ rows

variable {fs}

theorem contents_insertData (hfs : fs.Reliable) (md : CThostFtdcDepthMarketDataField) (d : D) :
    fs.contents (insertData fs md file d) file =
      fs.contents d file ++ tickText md (fs.size d file) :=
  congrArg Prod.fst (file_insertData hfs md file d).1

theorem headerIfEmpty_iff (hfs : fs.Reliable) (md : CThostFtdcDepthMarketDataField) (d : D) :
    HeaderIfEmpty fs file md d ↔ SizeSeen (fs.file d file) := by
  rw [HeaderIfEmpty, contents_insertData file hfs, List.append_cancel_left_eq]
  exact tickText_eq_iff md (hfs.empty d file).mpr

variable {file}

theorem insertTicks_concat (mds : List CThostFtdcDepthMarketDataField)
    (md : CThostFtdcDepthMarketDataField) (d : D) :
    insertTicks fs file (mds ++ [md]) d = insertData fs md file (insertTicks fs file mds d) := by
  rw [insertTicks, List.foldl_concat]
  rfl

theorem contents_insertTicks_concat (hfs : fs.Reliable)
    (mds : List CThostFtdcDepthMarketDataField) (md : CThostFtdcDepthMarketDataField) (d : D) :
    fs.contents (insertTicks fs file (mds ++ [md]) d) file =
      fs.contents (insertTicks fs file mds d) file ++
        tickText md (fs.size (insertTicks fs file mds d) file) := by
  rw [insertTicks_concat]
  exact contents_insertData file hfs md _

theorem grown_insertTicks (hfs : fs.Reliable) (mds : List CThostFtdcDepthMarketDataField) (d : D) :
    Grown (fs.contents d file) mds (fs.contents (insertTicks fs file mds d) file) := by
  induction mds using List.reverseRecOn with
  | nil => exact .refl
  | append_singleton mds md ih =>
    rw [contents_insertTicks_concat hfs]
    exact ih.tickText md _

theorem sizesSeen_concat (mds : List CThostFtdcDepthMarketDataField)
    (md : CThostFtdcDepthMarketDataField) (d : D) :
    SizesSeen fs file (mds ++ [md]) d ↔
      SizesSeen fs file mds d ∧ SizeSeen (fs.file (insertTicks fs file mds d) file) := by
  constructor
  · intro h
    refine ⟨fun before m after heq => ?_, h mds md [] rfl⟩
    exact h before m (after ++ [md]) (by simp [heq])
  · rintro ⟨h, hlast⟩ before m after heq
    cases after using List.reverseRecOn with
    | nil =>
      obtain ⟨rfl, -⟩ := List.append_inj' heq rfl
      exact hlast
    | append_singleton after a =>
      apply h before m after
      rw [← List.cons_append, ← List.append_assoc] at heq
      exact (List.append_inj' heq rfl).1

theorem length_insertTicks (hfs : fs.Reliable) {mds : List CThostFtdcDepthMarketDataField} {d : D}
    (hd : fs.contents d file = []) (hmds : mds ≠ []) :
    insertHead.length + (mds.flatMap insertTick).length ≤
      (fs.contents (insertTicks fs file mds d) file).length := by
  induction mds using List.reverseRecOn with
  | nil => exact absurd rfl hmds
  | append_singleton mds md ih =>
    rw [contents_insertTicks_concat hfs, List.flatMap_append, List.flatMap_singleton,
      List.length_append, List.length_append]
    by_cases hnil : mds = []
    · subst hnil
      have hzero : fs.size d file = 0 := (hfs.empty d file).mpr hd
      rw [insertTicks, List.foldl_nil, hd, tickText, if_pos (by rw [hzero]; rfl)]
      simp
    · have hrow : (insertTick md).length ≤
          (tickText md (fs.size (insertTicks fs file mds d) file)).length := by
        rw [tickText]
        split <;> simp
      have hrows := ih hnil
      omega

theorem tickText_of_length_le {md : CThostFtdcDepthMarketDataField} {size : ℕ}
    (h : (tickText md size).length ≤ (insertTick md).length) :
    tickText md size = insertTick md := by
  rw [tickText] at h ⊢
  split at h
  · have hhead := List.length_pos_iff.mpr insertHead_ne_nil
    rw [List.length_append] at h
    omega
  · rename_i hsize
    rw [if_neg hsize]

/-- From an empty file on, the header is written once if and only if every size is seen as it
is. -/
theorem contents_insertTicks_iff (hfs : fs.Reliable) {mds : List CThostFtdcDepthMarketDataField}
    {d : D} (hd : fs.contents d file = []) (hmds : mds ≠ []) :
    fs.contents (insertTicks fs file mds d) file = insertHead ++ mds.flatMap insertTick ↔
      SizesSeen fs file mds d := by
  induction mds using List.reverseRecOn with
  | nil => exact absurd rfl hmds
  | append_singleton mds md ih =>
    rw [contents_insertTicks_concat hfs, sizesSeen_concat, List.flatMap_append,
      List.flatMap_singleton]
    by_cases hnil : mds = []
    · subst hnil
      have hnone : SizesSeen fs file [] d := fun before m after h => by simp at h
      have hstart : fs.contents (insertTicks fs file [] d) file = [] := hd
      have hzero : fs.size (insertTicks fs file [] d) file = 0 := (hfs.empty d file).mpr hd
      have hseen : SizeSeen (fs.file (insertTicks fs file [] d) file) := .inl hstart
      rw [hstart, tickText, if_pos (by rw [hzero]; rfl)]
      simp [hnone, hseen]
    · have hlen := length_insertTicks hfs hd hnil
      have hne : fs.contents (insertTicks fs file mds d) file ≠ [] := fun h => by
        have hhead := List.length_pos_iff.mpr insertHead_ne_nil
        rw [h, List.length_nil] at hlen
        omega
      have hempty := (hfs.empty (insertTicks fs file mds d) file).mpr
      rw [← ih hnil, FileSystem.file, ← tickText_eq_iff md hempty, if_neg hne, List.nil_append]
      constructor
      · intro heq
        have hsizes := congrArg List.length heq
        simp only [List.length_append] at hsizes
        have hrow : tickText md (fs.size (insertTicks fs file mds d) file) = insertTick md :=
          tickText_of_length_le (by omega)
        rw [hrow, ← List.append_assoc] at heq
        exact ⟨List.append_cancel_right heq, hrow⟩
      · rintro ⟨hrows, hrow⟩
        rw [hrow, hrows, List.append_assoc]

theorem headerFirst_iff (hfs : fs.Reliable) {mds : List CThostFtdcDepthMarketDataField} {d : D}
    (hd : fs.contents d file = []) (hlines : ∀ md ∈ mds, OneLine md) :
    HeaderFirst (fs.contents (insertTicks fs file mds d) file) ↔
      fs.contents (insertTicks fs file mds d) file = insertHead ++ mds.flatMap insertTick := by
  have hgrown : Grown (terminated '\n' []) mds (fs.contents (insertTicks fs file mds d) file) := by
    have h : Grown (fs.contents d file) mds _ := grown_insertTicks hfs mds d
    rwa [hd] at h
  obtain ⟨new, hnew, hnl, hrows⟩ := hgrown.exists_lines hlines
  have htext : insertHead ++ mds.flatMap insertTick =
      terminated '\n' (headLine :: mds.map tickLine) := by
    rw [terminated_cons, terminated, List.flatMap_map, insertHead, List.append_assoc]
    rfl
  rw [List.nil_append] at hnew
  rw [HeaderFirst, hnew, splitOn_terminated hnl, List.dropLast_concat, htext]
  constructor
  · rintro ⟨rows, rfl, hno⟩
    have hkeep : ∀ l ∈ rows, decide (l ≠ headLine) = true :=
      fun l hl => decide_eq_true fun h => hno (h ▸ hl)
    rw [List.filter_cons_of_neg (by simp), List.filter_eq_self.mpr hkeep] at hrows
    rw [hrows]
  · intro h
    have hsplit := congrArg (List.splitOn '\n') h
    have hticks : ∀ l ∈ headLine :: mds.map tickLine, '\n' ∉ l := by
      refine List.forall_mem_cons.mpr ⟨headLine_oneLine, fun l hl => ?_⟩
      obtain ⟨md, hmd, rfl⟩ := List.mem_map.mp hl
      exact (hlines md hmd).tickLine
    rw [splitOn_terminated hnl, splitOn_terminated hticks] at hsplit
    refine ⟨_, List.append_cancel_right hsplit, fun hmem => ?_⟩
    obtain ⟨md, -, hmd⟩ := List.mem_map.mp hmem
    exact tickLine_ne_headLine md hmd

variable (file)

/-- A tick gets its header right if and only if the size of its file is seen as it is, and a
file grown from an empty one has its header once if and only if this was so every time. -/
theorem header_once_iff (hfs : fs.Reliable) :
    (∀ md d, HeaderIfEmpty fs file md d ↔ SizeSeen (fs.file d file)) ∧
      ∀ mds d, fs.contents d file = [] → mds ≠ [] →
        (fs.contents (insertTicks fs file mds d) file = insertHead ++ mds.flatMap insertTick ↔
            SizesSeen fs file mds d) ∧
          ((∀ md ∈ mds, OneLine md) →
            (HeaderFirst (fs.contents (insertTicks fs file mds d) file) ↔
              SizesSeen fs file mds d)) := by
  refine ⟨headerIfEmpty_iff file hfs, fun mds d hd hmds => ?_⟩
  have hiff := contents_insertTicks_iff hfs hd hmds
  exact ⟨hiff, fun hlines => (headerFirst_iff hfs hd hlines).trans hiff⟩

end Inserted

section Sample

def zeroTick : CThostFtdcDepthMarketDataField := .zeroFilled

theorem header_once_zeroTick :
    HeaderFirst ((insertTicks flatDisk "a.csv".toList [zeroTick, zeroTick] fun _ => [])
      "a.csv".toList) := by
  refine (((header_once_iff "a.csv".toList flatDisk_reliable).2 [zeroTick, zeroTick]
    (fun _ => []) rfl (by simp)).2 ?_).mpr ?_
  · intro md hmd
    obtain rfl : md = zeroTick := by simpa using hmd
    constructor <;> exact List.not_mem_nil
  · intro before md after h
    cases before with
    | nil => exact .inl rfl
    | cons first before =>
      obtain ⟨rfl, h⟩ := List.cons.inj h
      cases before with
      | nil =>
        right
        decide +kernel
      | cons second before => simp at h

/-- A file of `2 ^ 32` bytes gets a second header. -/
theorem header_in_large_file :
    ¬HeaderIfEmpty flatDisk "a.csv".toList zeroTick fun _ => List.replicate (2 ^ 32) '0' := by
  rw [headerIfEmpty_iff _ flatDisk_reliable, SizeSeen]
  have hlen : ∀ n, (List.replicate n '0').length = n := fun n => List.length_replicate
  have hbytes : ∀ n, textBytes (List.replicate n '0') = n := by
    intro n
    rw [textBytes, List.map_replicate, List.sum_replicate_nat]
    exact mul_one n
  refine not_or.mpr ⟨fun hnil => ?_, fun hsize => hsize ?_⟩
  · have hsize := congrArg List.length hnil
    exact absurd ((hlen _).symm.trans hsize) (by decide)
  · exact dvd_of_eq (hbytes _).symm

end Sample

end MdApi
end PyCtp
