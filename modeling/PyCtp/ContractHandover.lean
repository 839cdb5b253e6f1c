import PyCtp.LabelledRuns
import PyCtp.SubscribeLoop

/-!
# Handing the contract list over

`tdapi` and `MdApi` share the symbol file and nothing else: a login response of the former
deletes it, the answers to contract queries append to it, a login response of the latter
reads it. What is requested is whatever answers have arrived since the deletion.
-/
namespace PyCtp
open LabelledRuns

namespace Handover

/-- Both connections. `requestId` is the counter of `tdapi` and `outstanding` holds the
queries not answered to the end; the rest records what happened: the query sent by the
latest login response, all answers and those since that response, each with the query it
answers, the completed queries in order, and what `subscribe` has requested. -/
structure State where
  symbolFile : Option Text
  requestId : ℕ
  outstanding : List ℕ
  latest : Option ℕ
  answers : List (ℕ × CThostFtdcInstrumentField)
  rows : List (ℕ × CThostFtdcInstrumentField)
  done : List ℕ
  subscriptions : List (List Text)
  hung : Bool
  deriving DecidableEq, Repr

inductive Event
  /-- `tdapi::OnFrontConnected`, which logs in. -/
  | tdFrontConnected
  /-- `tdapi::OnRspUserLogin`. -/
  | tdRspUserLogin
  /-- `tdapi::OnRspQryInstrument`. -/
  | tdRspQryInstrument (p : CThostFtdcInstrumentField) (nRequestID : ℕ) (bIsLast : Bool)
  /-- `MdApi::OnRspUserLogin`, which subscribes. -/
  | mdRspUserLogin
  deriving DecidableEq, Repr

/-- Before the first event; a symbol file may be left from an earlier run. -/
def State.start (symbolFile : Option Text) : State where
  symbolFile := symbolFile
  requestId := 0
  outstanding := []
  latest := none
  answers := []
  rows := []
  done := []
  subscriptions := []
  hung := false

/-- `query_all_contract`: the file is removed and a query with a new id is sent. -/
def State.queryAllContract (s : State) : State :=
  { s with
    symbolFile := Tdapi.queryAllContract s.symbolFile
    requestId := s.requestId + 1
    outstanding := s.outstanding ++ [s.requestId + 1]
    latest := some (s.requestId + 1)
    rows := [] }

/-- An answer appends its line whatever query it belongs to. -/
def State.onRspQryInstrument (s : State) (p : CThostFtdcInstrumentField) (nRequestID : ℕ)
    (bIsLast : Bool) : State :=
  { s with
    symbolFile := Tdapi.onRspQryInstrument true p s.symbolFile
    outstanding := if bIsLast then s.outstanding.erase nRequestID else s.outstanding
    answers := s.answers ++ [(nRequestID, p)]
    rows := s.rows ++ [(nRequestID, p)]
    done := if bIsLast then s.done ++ [nRequestID] else s.done }

def State.subscribe (s : State) : State :=
  match MdApi.subscribeNames s.symbolFile with
  | none => { s with hung := true }
  | some names => { s with subscriptions := s.subscriptions ++ [names] }

/-- Answers arrive to outstanding queries, and nothing reaches an `MdApi` that is caught in
the loop of `subscribe`. -/
def step (s : State) : Event → Option State
  | .tdFrontConnected => some { s with requestId := s.requestId + 1 }
  | .tdRspUserLogin => some s.queryAllContract
  | .tdRspQryInstrument p nRequestID bIsLast =>
    if nRequestID ∈ s.outstanding then some (s.onRspQryInstrument p nRequestID bIsLast)
    else none
  | .mdRspUserLogin => if s.hung then none else some s.subscribe

def State.answersTo (s : State) (i : ℕ) : List CThostFtdcInstrumentField :=
  (s.answers.filter (·.1 = i)).map (·.2)

/-- The ids are handed out in order, and what came before the latest query answers or
completes earlier ones. -/
structure Ordered (s : State) : Prop where
  outstanding_le : ∀ i ∈ s.outstanding, i ≤ s.requestId
  answers_le : ∀ a ∈ s.answers, a.1 ≤ s.requestId
  done_le : ∀ i ∈ s.done, i ≤ s.requestId
  file : s.latest.isSome = true → s.symbolFile =
    if s.rows = [] then none
    else some (terminated '\n' (s.rows.map fun r => Tdapi.instrumentLine r.2))
  earlier_answers : ∀ i, s.latest = some i →
    ∃ earlier, s.answers = earlier ++ s.rows ∧ ∀ a ∈ earlier, a.1 < i
  earlier_done : ∀ i, s.latest = some i →
    ∃ earlier later, s.done = earlier ++ later ∧ (∀ j ∈ earlier, j < i) ∧
      ∀ j ∈ later, ∃ r ∈ s.rows, r.1 = j

theorem ordered_start (symbolFile : Option Text) : Ordered (.start symbolFile) := by
  constructor <;> simp [State.start]

theorem Ordered.queryAllContract {s : State} (h : Ordered s) : Ordered s.queryAllContract where
  outstanding_le := by
    intro i hi
    rcases List.mem_append.mp hi with hi | hi
    · exact Nat.le_succ_of_le (h.outstanding_le i hi)
    · exact (List.mem_singleton.mp hi).le
  answers_le a ha := Nat.le_succ_of_le (h.answers_le a ha)
  done_le i hi := Nat.le_succ_of_le (h.done_le i hi)
  file _ := rfl
  earlier_answers i hi := by
    obtain rfl := Option.some.inj hi
    exact ⟨s.answers, by simp [State.queryAllContract],
      fun a ha => Nat.lt_succ_of_le (h.answers_le a ha)⟩
  earlier_done i hi := by
    obtain rfl := Option.some.inj hi
    exact ⟨s.done, [], by simp [State.queryAllContract],
      fun j hj => Nat.lt_succ_of_le (h.done_le j hj), by simp⟩

theorem Ordered.onRspQryInstrument {s : State} (h : Ordered s) {i : ℕ} (hi : i ∈ s.outstanding)
    (p : CThostFtdcInstrumentField) (b : Bool) : Ordered (s.onRspQryInstrument p i b) where
  outstanding_le := by
    intro j hj
    cases b with
    | false => exact h.outstanding_le j hj
    | true => exact h.outstanding_le j (List.mem_of_mem_erase hj)
  answers_le := by
    intro a ha
    rcases List.mem_append.mp ha with ha | ha
    · exact h.answers_le a ha
    · rw [List.mem_singleton.mp ha]
      exact h.outstanding_le i hi
  done_le := by
    intro j hj
    cases b with
    | false => exact h.done_le j hj
    | true =>
      rcases List.mem_append.mp hj with hj | hj
      · exact h.done_le j hj
      · rw [List.mem_singleton.mp hj]
        exact h.outstanding_le i hi
  file hl := by
    have hcontents : s.symbolFile.getD [] =
        terminated '\n' (s.rows.map fun r => Tdapi.instrumentLine r.2) := by
      rw [h.file hl]
      split
      · rename_i hnil
        simp [hnil]
      · rfl
    simp [State.onRspQryInstrument, Tdapi.onRspQryInstrument, hcontents, terminated_append]
  earlier_answers k hk := by
    obtain ⟨earlier, heq, hlt⟩ := h.earlier_answers k hk
    exact ⟨earlier, by simp [State.onRspQryInstrument, heq], hlt⟩
  earlier_done k hk := by
    obtain ⟨earlier, later, heq, hlt, hlater⟩ := h.earlier_done k hk
    have hkeep : ∀ j ∈ later, ∃ r ∈ s.rows ++ [(i, p)], r.1 = j := by
      intro j hj
      obtain ⟨r, hr, hrj⟩ := hlater j hj
      exact ⟨r, List.mem_append_left _ hr, hrj⟩
    cases b with
    | false => exact ⟨earlier, later, heq, hlt, hkeep⟩
    | true =>
      refine ⟨earlier, later ++ [i], by simp [State.onRspQryInstrument, heq], hlt, ?_⟩
      exact List.forall_mem_append.mpr ⟨hkeep, fun j hj =>
        ⟨(i, p), by simp [State.onRspQryInstrument], (List.mem_singleton.mp hj).symm⟩⟩

theorem Ordered.step {s t : State} (h : Ordered s) {e : Event} (he : step s e = some t) :
    Ordered t := by
  cases e with
  | tdFrontConnected =>
    obtain rfl := Option.some.inj he
    exact ⟨fun i hi => Nat.le_succ_of_le (h.outstanding_le i hi),
      fun a ha => Nat.le_succ_of_le (h.answers_le a ha),
      fun i hi => Nat.le_succ_of_le (h.done_le i hi), h.file, h.earlier_answers, h.earlier_done⟩
  | tdRspUserLogin =>
    obtain rfl := Option.some.inj he
    exact h.queryAllContract
  | tdRspQryInstrument p i b =>
    obtain ⟨hi, rfl⟩ : i ∈ s.outstanding ∧ _ = t := by simpa [Handover.step] using he
    exact h.onRspQryInstrument hi p b
  | mdRspUserLogin =>
    obtain ⟨-, rfl⟩ : s.hung = false ∧ s.subscribe = t := by simpa [Handover.step] using he
    rw [State.subscribe]
    split
    · exact ⟨h.outstanding_le, h.answers_le, h.done_le, h.file, h.earlier_answers,
        h.earlier_done⟩
    · exact ⟨h.outstanding_le, h.answers_le, h.done_le, h.file, h.earlier_answers,
        h.earlier_done⟩

theorem ordered_of_run {symbolFile : Option Text} {es : List Event} {t : State}
    (hrun : run step (.start symbolFile) es = some t) : Ordered t :=
  run_invariant Ordered (fun _ _ _ h he => h.step he) (ordered_start symbolFile) hrun

def answered (es : List Event) : List CThostFtdcInstrumentField :=
  es.filterMap fun
    | .tdRspQryInstrument p _ _ => some p
    | _ => none

theorem rows_answered {symbolFile : Option Text} {es : List Event} {t : State}
    (hrun : run step (.start symbolFile) es = some t) : ∀ r ∈ t.rows, r.2 ∈ answered es := by
  refine run_history (fun es t => ∀ r ∈ t.rows, r.2 ∈ answered es) (by simp [State.start]) ?_
    hrun
  intro es s e u _ hs he r hr
  have hmono : answered es ⊆ answered (es ++ [e]) := by
    rw [answered, answered, List.filterMap_append]
    exact List.subset_append_left _ _
  cases e with
  | tdFrontConnected =>
    obtain rfl := Option.some.inj he
    exact hmono (hs r hr)
  | tdRspUserLogin =>
    obtain rfl := Option.some.inj he
    simp [State.queryAllContract] at hr
  | tdRspQryInstrument p i b =>
    obtain ⟨-, rfl⟩ : i ∈ s.outstanding ∧ _ = u := by simpa [Handover.step] using he
    rcases List.mem_append.mp hr with hr | hr
    · exact hmono (hs r hr)
    · rw [List.mem_singleton.mp hr]
      simp [answered]
  | mdRspUserLogin =>
    obtain ⟨-, rfl⟩ : s.hung = false ∧ s.subscribe = u := by simpa [Handover.step] using he
    rw [State.subscribe] at hr
    split at hr
    · exact hmono (hs r hr)
    · exact hmono (hs r hr)

theorem subscribe_rows {s : State} (h : Ordered s) (hlatest : s.latest.isSome = true)
    (hrows : ∀ r ∈ s.rows, Writable r.2) (hne : s.rows ≠ []) :
    s.subscribe.subscriptions =
      s.subscriptions ++ [s.rows.map (·.2.instrumentID) ++ [[]]] := by
  have hfile : MdApi.Subscribes s.symbolFile (s.rows.map (·.2.instrumentID) ++ [[]]) := by
    rw [h.file hlatest, if_neg hne]
    have hsub := MdApi.subscribes_lines (List.forall_mem_map.mpr hrows)
    simpa [List.map_map, Function.comp_def] using hsub
  rw [State.subscribe, MdApi.subscribeNames_eq_some_iff.mpr hfile]

/-- If all answers since the latest login response belong to its query, they are all the
answers to that query, and once it has completed it is the last one that has. -/
theorem latest_complete {s : State} (h : Ordered s) {i : ℕ} (hlatest : s.latest = some i)
    (hdone : i ∈ s.done) (hrows : ∀ r ∈ s.rows, r.1 = i) :
    s.done.getLast? = some i ∧ s.answersTo i = s.rows.map (·.2) ∧ s.rows ≠ [] := by
  obtain ⟨earlier, heq, hlt⟩ := h.earlier_answers i hlatest
  obtain ⟨before, later, hsplit, hbefore, hlater⟩ := h.earlier_done i hlatest
  have hall : ∀ j ∈ later, j = i := by
    intro j hj
    obtain ⟨r, hr, rfl⟩ := hlater j hj
    exact hrows r hr
  have hmem : i ∈ later := by
    rcases List.mem_append.mp (hsplit ▸ hdone) with hi | hi
    · exact absurd (hbefore i hi) (lt_irrefl i)
    · exact hi
  refine ⟨?_, ?_, ?_⟩
  · rw [hsplit, List.getLast?_append_of_ne_nil _ (List.ne_nil_of_mem hmem),
      List.getLast?_eq_some_getLast (List.ne_nil_of_mem hmem)]
    exact congrArg some (hall _ (List.getLast_mem _))
  · have hnone : earlier.filter (fun a => decide (a.1 = i)) = [] :=
      List.filter_eq_nil_iff.mpr fun a ha => by simpa using (hlt a ha).ne
    have hsome : s.rows.filter (fun a => decide (a.1 = i)) = s.rows :=
      List.filter_eq_self.mpr fun a ha => by simpa using hrows a ha
    rw [State.answersTo, heq, List.filter_append, hnone, hsome, List.nil_append]
  · obtain ⟨r, hr, -⟩ := hlater i hmem
    exact List.ne_nil_of_mem hr

def named (names : List Text) : List Text := names.filter (· ≠ [])

/-- Whenever `subscribe` runs after answers have arrived since the latest login response of
`tdapi`, it requests the names in these answers. If the query of that response has completed and
all answers since belong to it, these are exactly the names of the query completed last. -/
theorem subscribe_after_login (symbolFile : Option Text) (es : List Event) (t u : State) (i : ℕ)
    (hanswers : ∀ p ∈ answered es, Writable p)
    (hrun : run step (.start symbolFile) es = some t) (hlatest : t.latest = some i)
    (hu : step t .mdRspUserLogin = some u) :
    (t.rows ≠ [] → ∃ names, u.subscriptions = t.subscriptions ++ [names] ∧
      named names = named (t.rows.map (·.2.instrumentID))) ∧
    (i ∈ t.done → (∀ r ∈ t.rows, r.1 = i) → t.done.getLast? = some i ∧
      ∃ names, u.subscriptions = t.subscriptions ++ [names] ∧
        named names = named ((t.answersTo i).map (·.instrumentID))) := by
  have hord := ordered_of_run hrun
  obtain ⟨-, rfl⟩ : t.hung = false ∧ t.subscribe = u := by simpa [Handover.step] using hu
  have hrequest : t.rows ≠ [] → ∃ names,
      t.subscribe.subscriptions = t.subscriptions ++ [names] ∧
        named names = named (t.rows.map (·.2.instrumentID)) := by
    intro hne
    exact ⟨_, subscribe_rows hord (by simp [hlatest])
      (fun r hr => hanswers _ (rows_answered hrun r hr)) hne, by simp [named]⟩
  refine ⟨hrequest, fun hdone hrows => ?_⟩
  obtain ⟨hlast, hall, hne⟩ := latest_complete hord hlatest hdone hrows
  obtain ⟨names, hnames, heq⟩ := hrequest hne
  refine ⟨hlast, names, hnames, ?_⟩
  rw [heq, hall, List.map_map]
  rfl

def singleQuery : List Event :=
  [.tdFrontConnected, .tdRspUserLogin, .tdRspQryInstrument MdApi.cu1709 2 true]

theorem subscribe_after_login_cu1709 :
    ∃ t u, run step (.start none) singleQuery = some t ∧ step t .mdRspUserLogin = some u ∧
      ∃ names, u.subscriptions = [names] ∧ named names = ["cu1709".toList] := by
  obtain ⟨t, u, ht, hlatest, hu, hdone, hrows, hsubs, hnames⟩ : ∃ t u,
      run step (.start none) singleQuery = some t ∧ t.latest = some 2 ∧
      step t .mdRspUserLogin = some u ∧ t.done = [2] ∧ t.rows = [(2, MdApi.cu1709)] ∧
      t.subscriptions = [] ∧ (t.answersTo 2).map (·.instrumentID) = ["cu1709".toList] :=
    ⟨_, _, rfl, rfl, rfl, rfl, rfl, rfl, rfl⟩
  obtain ⟨-, names, hreq, heq⟩ := (subscribe_after_login none singleQuery t u 2
    MdApi.cu1709_writable ht hlatest hu).2 (by simp [hdone]) (by simp [hrows])
  rw [hsubs, List.nil_append] at hreq
  rw [hnames] at heq
  exact ⟨t, u, ht, hu, names, hreq, heq⟩

def a1801 : CThostFtdcInstrumentField :=
  ⟨"a1801".toList, "soybean1801".toList, "DCE".toList, "20180115".toList⟩

/-- A query completed, then a second login response of `tdapi` and the first of the answers to its
query. -/
def secondQuery : List Event :=
  [.tdRspUserLogin, .tdRspQryInstrument MdApi.cu1709 1 true, .tdRspUserLogin,
    .tdRspQryInstrument a1801 2 false]

/-- A subscription then requests a part of the second list instead of the first one. -/
theorem subscribe_after_relogin :
    ¬∀ symbolFile es t u i, (∀ p ∈ answered es, Writable p) →
      run step (.start symbolFile) es = some t → t.done.getLast? = some i →
      step t .mdRspUserLogin = some u →
      ∃ names, u.subscriptions = t.subscriptions ++ [names] ∧
        named names = named ((t.answersTo i).map (·.instrumentID)) := by
  intro hall
  have hwritable : ∀ p ∈ answered secondQuery, Writable p := by
    have ha1801 : Writable a1801 := by constructor <;> decide
    simpa [secondQuery, answered] using ⟨MdApi.cu1709_writable MdApi.cu1709 (by simp), ha1801⟩
  obtain ⟨t, ht, hdone, hhung, hlatest, hrows, hanswers⟩ : ∃ t,
      run step (.start none) secondQuery = some t ∧ t.done.getLast? = some 1 ∧
      t.hung = false ∧ t.latest.isSome = true ∧ t.rows = [(2, a1801)] ∧
      (t.answersTo 1).map (·.instrumentID) = ["cu1709".toList] :=
    ⟨_, rfl, rfl, rfl, rfl, rfl, rfl⟩
  have hu : step t .mdRspUserLogin = some t.subscribe := by simp [step, hhung]
  obtain ⟨names, hnames, heq⟩ := hall none secondQuery t _ 1 hwritable ht hdone hu
  have hrequested := subscribe_rows (ordered_of_run ht) hlatest
    (fun r hr => hwritable _ (rows_answered ht r hr)) (by simp [hrows])
  obtain rfl : [a1801.instrumentID, []] = names := by
    simpa [hrows] using List.append_cancel_left (hrequested.symm.trans hnames)
  rw [hanswers] at heq
  exact absurd heq (by decide)

end Handover
end PyCtp
