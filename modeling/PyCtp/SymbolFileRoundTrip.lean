import PyCtp.SymbolFile

/-!
# Reading the contract list back

The loop of `subscribe` learns that the file has ended only from the attempt to read
past its last line, and keeps what that attempt left in the buffer: every list of
contracts is followed by an empty name. Without a file the attempt never reaches an end.
-/
namespace PyCtp
open TextScanning WhileLoops

/-- An instrument whose line can be read back: C strings without a newline, no comma in
the name, and a line that fits the buffer. -/
structure Writable (p : CThostFtdcInstrumentField) : Prop where
  id_plain : ',' ∉ p.instrumentID ∧ '\n' ∉ p.instrumentID ∧ '\x00' ∉ p.instrumentID
  name_plain : '\n' ∉ p.instrumentName ∧ '\x00' ∉ p.instrumentName
  exchange_plain : '\n' ∉ p.exchangeID ∧ '\x00' ∉ p.exchangeID
  expire_plain : '\n' ∉ p.expireDate ∧ '\x00' ∉ p.expireDate
  fits : (Tdapi.instrumentLine p).length < MdApi.bufferSize

theorem Writable.line_no_newline {p : CThostFtdcInstrumentField} (h : Writable p) :
    '\n' ∉ Tdapi.instrumentLine p := by
  simp [Tdapi.instrumentLine, h.id_plain, h.name_plain, h.exchange_plain, h.expire_plain]

theorem Writable.line_no_nul {p : CThostFtdcInstrumentField} (h : Writable p) :
    '\x00' ∉ Tdapi.instrumentLine p := by
  simp [Tdapi.instrumentLine, h.id_plain, h.name_plain, h.exchange_plain, h.expire_plain]

theorem Writable.read_name {p : CThostFtdcInstrumentField} (h : Writable p) :
    cut ",".toList (Config.cStr (Tdapi.instrumentLine p)) = p.instrumentID := by
  have hline : Tdapi.instrumentLine p = p.instrumentID ++ ',' ::
      (p.instrumentName ++ ",".toList ++ p.exchangeID ++ ",".toList ++ p.expireDate ++
        ",".toList) := by
    simp [Tdapi.instrumentLine]
  rw [Config.cStr_of_no_nul h.line_no_nul, hline]
  exact cut_singleton_append h.id_plain.1 _

namespace Tdapi

theorem foldl_onRspQryInstrument (ps : List CThostFtdcInstrumentField) (s : Text) :
    ps.foldl (fun f p => onRspQryInstrument true p f) (some s) =
      some (s ++ terminated '\n' (ps.map instrumentLine)) := by
  induction ps generalizing s with
  | nil => simp
  | cons p ps ih =>
    rw [List.foldl_cons, onRspQryInstrument, if_pos rfl, ih]
    simp

theorem contractFile_eq (symbolFile : Option Text) (ps : List CThostFtdcInstrumentField) :
    contractFile symbolFile ps =
      if ps = [] then none else some (terminated '\n' (ps.map instrumentLine)) := by
  cases ps with
  | nil => rfl
  | cons p ps =>
    have h := foldl_onRspQryInstrument ps (instrumentLine p ++ "\n".toList)
    rw [if_neg (by simp)]
    simpa [contractFile, queryAllContract, onRspQryInstrument] using h

end Tdapi

namespace MdApi

theorem readSymbol_line {l : Text} (hl : '\n' ∉ l) (hfits : l.length < bufferSize)
    (r : Text) (names : List Text) :
    readSymbol ⟨.opened (l ++ '\n' :: r), names⟩ =
      some ⟨.opened r, names ++ [cut ",".toList (Config.cStr l)]⟩ := by
  rw [readSymbol, if_neg (by simp [IStream.opened])]
  simp only [IStream.getlineBuf_line hl hfits]

theorem readSymbol_end (names : List Text) :
    readSymbol ⟨.opened [], names⟩ = some ⟨⟨[], true, true⟩, names ++ [[]]⟩ := by
  rw [readSymbol, if_neg (by simp [IStream.opened])]
  simp only [IStream.getlineBuf_opened_nil]
  rfl

/-- On lines that fit the buffer the loop ends with their names and an empty one. -/
theorem readSymbol_ends {ls : List Text}
    (hls : ∀ l ∈ ls, '\n' ∉ l ∧ l.length < bufferSize) (names : List Text) :
    Ends readSymbol ⟨.opened (terminated '\n' ls), names⟩
      ⟨⟨[], true, true⟩,
        names ++ ls.map (fun l => cut ",".toList (Config.cStr l)) ++ [[]]⟩ := by
  induction ls generalizing names with
  | nil =>
    rw [List.map_nil, List.append_nil]
    exact .step (readSymbol_end names) (.exit rfl)
  | cons l ls ih =>
    obtain ⟨⟨hl, hfits⟩, hls⟩ := List.forall_mem_cons.mp hls
    rw [terminated_cons]
    have htail := ih hls (names ++ [cut ",".toList (Config.cStr l)])
    rw [List.append_assoc names, List.singleton_append] at htail
    exact .step (readSymbol_line hl hfits _ names) htail

theorem readSymbol_diverges {r : SymbolReader} (he : r.symbolfile.eofbit = false)
    (hf : r.symbolfile.failbit = true) : Diverges readSymbol r := by
  refine diverges_of_invariant
    (fun r => r.symbolfile.eofbit = false ∧ r.symbolfile.failbit = true) ?_ ⟨he, hf⟩
  rintro r ⟨he, hf⟩
  refine ⟨⟨r.symbolfile, r.contractNameList ++ [[]]⟩, ?_, he, hf⟩
  rw [readSymbol, he, if_neg (by simp)]
  simp only [IStream.getlineBuf_failed hf]
  rfl

theorem neverSubscribes_none : NeverSubscribes none := readSymbol_diverges rfl rfl

theorem Subscribes.unique {f : Option Text} {ns ms : List Text} (hn : Subscribes f ns)
    (hm : Subscribes f ms) : ns = ms := by
  obtain ⟨r, hr, rfl⟩ := hn
  obtain ⟨q, hq, rfl⟩ := hm
  rw [hr.unique hq]

theorem NeverSubscribes.not_subscribes {f : Option Text} (h : NeverSubscribes f)
    (names : List Text) : ¬Subscribes f names := by
  rintro ⟨r, hr, -⟩
  exact Diverges.not_ends h r hr

theorem subscribes_lines {ps : List CThostFtdcInstrumentField} (h : ∀ p ∈ ps, Writable p) :
    Subscribes (some (terminated '\n' (ps.map Tdapi.instrumentLine)))
      (ps.map (·.instrumentID) ++ [[]]) := by
  have hls : ∀ l ∈ ps.map Tdapi.instrumentLine, '\n' ∉ l ∧ l.length < bufferSize := by
    intro l hl
    obtain ⟨p, hp, rfl⟩ := List.mem_map.mp hl
    exact ⟨(h p hp).line_no_newline, (h p hp).fits⟩
  refine ⟨_, readSymbol_ends hls [], ?_⟩
  have hnames : (ps.map Tdapi.instrumentLine).map
      (fun l => cut ",".toList (Config.cStr l)) = ps.map (·.instrumentID) := by
    rw [List.map_map]
    exact List.map_congr_left fun p hp => (h p hp).read_name
  rw [hnames, List.nil_append]

/-- No list of contracts is requested as it was written: a non-empty one is followed by
an empty name, and after an empty one the loop does not end. -/
theorem subscribe_contracts (symbolFile : Option Text) (ps : List CThostFtdcInstrumentField)
    (h : ∀ p ∈ ps, Writable p) :
    ¬Subscribes (Tdapi.contractFile symbolFile ps) (ps.map (·.instrumentID)) ∧
    (ps ≠ [] → Subscribes (Tdapi.contractFile symbolFile ps)
      (ps.map (·.instrumentID) ++ [[]])) ∧
    (ps = [] → NeverSubscribes (Tdapi.contractFile symbolFile ps)) := by
  rw [Tdapi.contractFile_eq]
  by_cases hps : ps = []
  · rw [if_pos hps]
    exact ⟨neverSubscribes_none.not_subscribes _, fun hne => absurd hps hne,
      fun _ => neverSubscribes_none⟩
  · rw [if_neg hps]
    have hs := subscribes_lines h
    refine ⟨fun hn => ?_, fun _ => hs, fun he => absurd he hps⟩
    have hlen := congrArg List.length (hn.unique hs)
    simp at hlen

def cu1709 : CThostFtdcInstrumentField :=
  ⟨"cu1709".toList, "copper1709".toList, "SHFE".toList, "20170915".toList⟩

theorem cu1709_writable : ∀ p ∈ [cu1709], Writable p := by
  intro p hp
  obtain rfl := List.mem_singleton.mp hp
  constructor <;> decide

theorem subscribe_contracts_cu1709 :
    Subscribes (Tdapi.contractFile none [cu1709]) ["cu1709".toList, []] :=
  (subscribe_contracts none [cu1709] cu1709_writable).2.1 (by simp)

/-- One contract written, two names requested. -/
theorem subscribe_cu1709_not_exact :
    ¬∀ symbolFile ps, (∀ p ∈ ps, Writable p) →
      Subscribes (Tdapi.contractFile symbolFile ps) (ps.map (·.instrumentID)) := by
  intro hall
  have hone := hall none [cu1709] cu1709_writable
  have htwo := subscribes_lines cu1709_writable
  rw [Tdapi.contractFile_eq, if_neg (by simp)] at hone
  have hlen := congrArg List.length (hone.unique htwo)
  simp at hlen

end MdApi
end PyCtp
