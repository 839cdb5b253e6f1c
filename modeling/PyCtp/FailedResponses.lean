import PyCtp.LabelledRuns
import PyCtp.TradeApi

/-!
# Failed responses

`tdapi` and `MdApi` receive login responses with an error, and `ReqQryInstrument` may
refuse a query. The symbol file is removed and the contracts are subscribed all the same.
-/
namespace PyCtp
open LabelledRuns MdApi

namespace FailedResponses

structure State (D : Type*) where
  symbolFile : Option Text
  td : Tdapi.Store
  md : MdApi.Store D

/-- A callback of `tdapi`, with what its calls turn out to be, or one of `MdApi`. -/
inductive Event
  | td (cb : Tdapi.Callback) (outcome : Tdapi.Outcome)
  | md (cb : Callback)

section Step
variable {D : Type*} (sizes : FieldSizes) (cfg : Config)

/-- Callbacks arrive while nothing has failed, those of `MdApi` while its API object lives and
its thread is free. -/
def step (s : State D) : Event → Option (State D)
  | .td cb outcome =>
    if s.td.fault = none ∧ s.md.fault = none then
      let after := Tdapi.callback sizes cfg cb outcome s.symbolFile s.td
      some { s with symbolFile := after.1, td := after.2 }
    else none
  | .md cb =>
    if s.td.fault = none ∧ s.md.fault = none ∧ s.md.api = .live ∧ s.md.hung = false then
      some { s with md := s.md.callback cb s.symbolFile }
    else none

end Step

def failed (pRspInfo : Option CThostFtdcRspInfoField) : Bool :=
  pRspInfo.any fun info => info.errorID ≠ 0

def Event.failedLogin : Event → Bool
  | .td (.onRspUserLogin _ pRspInfo _ _) _ => failed pRspInfo
  | .md (.onRspUserLogin _ pRspInfo _ _) => failed pRspInfo
  | _ => false

def Event.refusedQuery : Event → Bool
  | .td (.onRspUserLogin ..) outcome => outcome.returned ≠ 0
  | _ => false

def isQuery : Tdapi.Request → Bool
  | .reqQryInstrument _ => true
  | _ => false

def isSubscription : Request → Bool
  | .subscribeMarketData _ => true
  | _ => false

variable {D : Type*}

def State.queries (s : State D) : List Tdapi.Request := s.td.requests.filter isQuery

def State.subscriptions (s : State D) : List Request := s.md.requests.filter isSubscription

/-- A failed login causes no query and no subscription, and neither it nor a refused query
changes the symbol file. -/
structure Harmless (s : State D) (e : Event) (t : State D) : Prop where
  queries : e.failedLogin = true → t.queries = s.queries
  subscriptions : e.failedLogin = true → t.subscriptions = s.subscriptions
  symbolFile : e.failedLogin = true ∨ e.refusedQuery = true → t.symbolFile = s.symbolFile

/-- The file can be read to its end by `subscribe`. -/
def Readable (symbolFile : Option Text) : Prop :=
  ∃ s, symbolFile = some s ∧ ∀ l ∈ s.splitOn '\n', l.length < bufferSize

/-- No failed login reaches `tdapi`, no query is refused where there is a symbol file, and none
reaches `MdApi` where the file can be read. -/
def Spared (s : State D) : Event → Prop
  | .td (.onRspUserLogin _ pRspInfo _ _) outcome =>
    failed pRspInfo = false ∧ (outcome.returned ≠ 0 → s.symbolFile = none)
  | .md (.onRspUserLogin pRspUserLogin pRspInfo _ _) =>
    failed pRspInfo = true → pRspUserLogin = none ∨ ¬Readable s.symbolFile
  | _ => True

theorem subscribeNames_isSome_iff (symbolFile : Option Text) :
    (∃ names, subscribeNames symbolFile = some names) ↔ Readable symbolFile := by
  simp only [subscribeNames_eq_some_iff]
  exact subscribes_iff symbolFile

variable {sizes : FieldSizes} {cfg : Config}

theorem step_tdLogin {s t : State D} {p : Option CThostFtdcRspUserLoginField}
    {info : Option CThostFtdcRspInfoField} {i : ℤ} {b : Bool} {outcome : Tdapi.Outcome}
    (h : step sizes cfg s (.td (.onRspUserLogin p info i b) outcome) = some t) :
    t = { s with symbolFile := none, td := s.td.queryAllContract } := by
  rw [step] at h
  split at h
  · exact (Option.some.inj h).symm
  · cases h

theorem harmless_tdLogin_iff {s t : State D} {p : Option CThostFtdcRspUserLoginField}
    {info : Option CThostFtdcRspInfoField} {i : ℤ} {b : Bool} {outcome : Tdapi.Outcome}
    (h : step sizes cfg s (.td (.onRspUserLogin p info i b) outcome) = some t) :
    Harmless s (.td (.onRspUserLogin p info i b) outcome) t ↔
      Spared s (.td (.onRspUserLogin p info i b) outcome) := by
  obtain rfl := step_tdLogin h
  constructor
  · intro hh
    refine ⟨Bool.eq_false_iff.mpr fun hfailed => ?_, fun hret => ?_⟩
    · have hsame := hh.queries hfailed
      simp [State.queries, Tdapi.Store.queryAllContract, isQuery] at hsame
    · exact (hh.symbolFile (.inr (decide_eq_true hret))).symm
  · rintro ⟨hok, hfile⟩
    have hnot : ¬failed info = true := Bool.eq_false_iff.mp hok
    refine ⟨fun hf => absurd hf hnot, fun hf => absurd hf hnot, ?_⟩
    rintro (hf | href)
    · exact absurd hf hnot
    · exact (hfile (of_decide_eq_true href)).symm

theorem step_mdLogin {s t : State D} {p : Option CThostFtdcRspUserLoginField}
    {info : Option CThostFtdcRspInfoField} {i : ℤ} {b : Bool}
    (h : step sizes cfg s (.md (.onRspUserLogin p info i b)) = some t) :
    t = { s with
      md := if p = none ∨ info = none then s.md.fail .nullArgument
        else s.md.subscribe s.symbolFile } := by
  rw [step] at h
  split at h
  · obtain rfl := Option.some.inj h
    cases p with
    | none =>
      rw [if_pos (Or.inl rfl)]
      rfl
    | some p =>
      cases info with
      | none =>
        rw [if_pos (Or.inr rfl)]
        rfl
      | some info =>
        rw [if_neg (by simp)]
        rfl
  · cases h

theorem harmless_mdLogin_iff {s t : State D} {p : Option CThostFtdcRspUserLoginField}
    {info : Option CThostFtdcRspInfoField} {i : ℤ} {b : Bool}
    (h : step sizes cfg s (.md (.onRspUserLogin p info i b)) = some t) :
    Harmless s (.md (.onRspUserLogin p info i b)) t ↔
      Spared s (.md (.onRspUserLogin p info i b)) := by
  obtain rfl := step_mdLogin h
  constructor
  · intro hh hfailed
    by_contra hnot
    obtain ⟨hp, hread⟩ := not_or.mp hnot
    obtain ⟨names, hnames⟩ := (subscribeNames_isSome_iff s.symbolFile).mpr (not_not.mp hread)
    have hinfo : info ≠ none := fun hnone => by simp [hnone, failed] at hfailed
    have hsame := hh.subscriptions hfailed
    simp [State.subscriptions, hp, hinfo, Store.subscribe, hnames, isSubscription] at hsame
  · intro hspared
    refine ⟨fun _ => rfl, fun hfailed => ?_, fun _ => rfl⟩
    rcases hspared hfailed with hp | hread
    · rw [if_pos (Or.inl hp)]
      rfl
    · have hnames : subscribeNames s.symbolFile = none := by
        rw [← subscribeNames_isSome_iff] at hread
        exact Option.eq_none_iff_forall_ne_some.mpr fun names h => hread ⟨names, h⟩
      split
      · rfl
      · simp [State.subscriptions, Store.subscribe, hnames]

/-- A step does no harm if and only if it is spared. -/
theorem harmless_iff_spared {s t : State D} {e : Event} (h : step sizes cfg s e = some t) :
    Harmless s e t ↔ Spared s e := by
  have hother : e.failedLogin = false → e.refusedQuery = false → Harmless s e t := by
    intro hl hq
    exact ⟨by simp [hl], by simp [hl], by simp [hl, hq]⟩
  cases e with
  | td cb outcome =>
    cases cb with
    | onRspUserLogin => exact harmless_tdLogin_iff h
    | _ => exact iff_of_true (hother rfl rfl) trivial
  | md cb =>
    cases cb with
    | onRspUserLogin => exact harmless_mdLogin_iff h
    | _ => exact iff_of_true (hother rfl rfl) trivial

/-- Along a run, failed logins and refused queries change nothing if and only if every step is
spared. -/
theorem run_harmless_iff (sizes : FieldSizes) (cfg : Config) (s : State D) (es : List Event) :
    Along (step sizes cfg) s es Harmless ↔
      Along (step sizes cfg) s es fun t e _ => Spared t e := by
  refine along_congr (fun t e u h => ?_) s es
  exact harmless_iff_spared h

def connected : State Unit where
  symbolFile := some "cu1709,,SHFE,20170915,\n".toList
  td := .new
  md := { MdApi.Store.new () with api := .live }

def wrongPassword : CThostFtdcRspInfoField := ⟨3, []⟩

/-- A login that `tdapi` is refused removes the list, as a refused query does, and one that
`MdApi` is refused subscribes to it. -/
theorem refused_not_harmless :
    ¬Along (step ⟨11, 16, 41⟩ .empty) connected
        [.td (.onRspUserLogin none (some wrongPassword) 1 true) ⟨true, 0⟩] Harmless ∧
      ¬Along (step ⟨11, 16, 41⟩ .empty) connected
        [.td (.onRspUserLogin none (some ⟨0, []⟩) 1 true) ⟨true, -1⟩] Harmless ∧
      ¬Along (step ⟨11, 16, 41⟩ .empty) connected
        [.md (.onRspUserLogin (some .zeroFilled) (some wrongPassword) 1 true)] Harmless := by
  refine ⟨fun h => ?_, fun h => ?_, fun h => ?_⟩
  · have hfile := (h [] _ [] connected _ rfl rfl rfl).symbolFile (.inl rfl)
    cases hfile
  · have hfile := (h [] _ [] connected _ rfl rfl rfl).symbolFile (.inr rfl)
    cases hfile
  · have hsubs := (h [] _ [] connected _ rfl rfl rfl).subscriptions rfl
    revert hsubs
    decide +kernel

end FailedResponses
end PyCtp
