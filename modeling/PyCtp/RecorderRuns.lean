import PyCtp.Recorder

/-!
# Runs of the recorder

Every task a callback enqueues holds what its handler casts it to, so a handler either
logs in, or records a tick, or leaves the store as it is. Over whole runs each tick file
grows by the rows of its instrument, in the order of arrival.
-/
namespace PyCtp
namespace MdApi

/-- The container that the handler of the task casts holds the type it casts to. -/
def Task.Castable (t : Task) : Prop :=
  match t.name with
  | .onFrontConnected | .emptyTask => True
  | .onFrontDisconnected | .onHeartbeatWarning => ∃ v, t.taskData = .hold .int v
  | .onRspUsrlogin => ∃ v, t.taskData = .hold .rspUserLogin v
  | .onRspUsrlogout => ∃ v, t.taskData = .hold .userLogout v
  | .onRspErr => ∃ v, t.taskError = .hold .rspInfo v
  | .onRspSubmarketData | .onRspUnsubmarketData | .onRspSubForQuoteRsp
  | .onRspUnsubForQuoteRsp => ∃ v, t.taskData = .hold .specificInstrument v
  | .onRtnDepthMarketData => ∃ v, t.taskData = .hold .depthMarketData v
  | .onRtnForQuoteRsp => ∃ v, t.taskData = .hold .forQuoteRsp v

def Task.tick? (t : Task) : Option CThostFtdcDepthMarketDataField :=
  if t.name = .onRtnDepthMarketData then t.taskData.cast FieldType.depthMarketData else none

theorem castable_of_enqueued {cb : Callback} {t : Task} (h : enqueued cb = some t) :
    t.Castable := by
  cases enqueues_of_enqueued h with
  | onFrontConnected => trivial
  | _ => exact ⟨_, rfl⟩

theorem processTask_cases {D : Type*} (fs : FileSystem D Text Char) (sizes : FieldSizes)
    (cfg : Config) {t : Task} (h : t.Castable) (s : Store D) :
    (t.name = .onFrontConnected ∧ t.tick? = none ∧
        processTask fs sizes cfg t s = s.login sizes cfg) ∨
      (∃ md, t.name ≠ .onFrontConnected ∧ t.tick? = some md ∧ processTask fs sizes cfg t s =
        { s with disk := recordTick fs (cfg.read "TickDir".toList []) md s.disk }) ∨
      (t.name ≠ .onFrontConnected ∧ t.tick? = none ∧ processTask fs sizes cfg t s = s) := by
  obtain ⟨name, taskData, taskError, requestId, isLast⟩ := t
  cases name with
  | onFrontConnected => exact .inl ⟨rfl, rfl, rfl⟩
  | emptyTask => exact .inr (.inr ⟨by simp, rfl, rfl⟩)
  | onRtnDepthMarketData =>
    obtain ⟨md, rfl⟩ := h
    refine .inr (.inl ⟨md, by simp, Any.cast_hold FieldType.depthMarketData md, ?_⟩)
    simp [processTask, processOnRtnDepthMarketData, Store.withCast]
  | onRspErr =>
    obtain ⟨error, rfl⟩ := h
    refine .inr (.inr ⟨by simp, by simp [Task.tick?], ?_⟩)
    simp [processTask, processOnRspError, Store.withCast]
  | _ =>
    obtain ⟨v, rfl⟩ := h
    refine .inr (.inr ⟨by simp, by simp [Task.tick?], ?_⟩)
    simp [processTask, Store.withCast, processOnFrontDisconneted, processOnHeartbeatWarning,
      processOnRspUserlogin, processOnRspUserLogout, processOnRspSubmarketData,
      processOnRspUnsubmarketData, processOnRspSubForQuoteRsp, processOnRspUnsubForQuoteRsp,
      processOnRtnForQuoteRsp]

theorem processTask_of_frontConnected {D : Type*} (fs : FileSystem D Text Char)
    (sizes : FieldSizes) (cfg : Config) {t : Task} (hn : t.name = .onFrontConnected)
    (s : Store D) : processTask fs sizes cfg t s = s.login sizes cfg := by
  rw [MdApi.processTask, hn]
  rfl

theorem processTask_keeps {D : Type*} (fs : FileSystem D Text Char) (sizes : FieldSizes)
    (cfg : Config) {t : Task} (ht : t.Castable) (hn : t.name ≠ .onFrontConnected)
    (s : Store D) :
    (processTask fs sizes cfg t s).fault = s.fault ∧
      (processTask fs sizes cfg t s).api = s.api := by
  rcases processTask_cases fs sizes cfg ht s with ⟨h, -, -⟩ | ⟨md, -, -, h⟩ | ⟨-, -, h⟩
  · exact absurd h hn
  · rw [h]
    exact ⟨rfl, rfl⟩
  · rw [h]
    exact ⟨rfl, rfl⟩

def Outside.tick? : Outside → Option CThostFtdcDepthMarketDataField
  | .callback (.onRtnDepthMarketData p) _ => p
  | _ => none

def arrivedTicks (instrumentID : Text) (es : List (TaskLoop.Event Outside Unit)) :
    List CThostFtdcDepthMarketDataField :=
  ((TaskLoop.externals es).filterMap Outside.tick?).filter (·.instrumentID = instrumentID)

def Outside.Arrives (o : Outside) : Prop :=
  ∃ cb symbolFile, o = .callback cb symbolFile ∧ cb.nonNull = true

theorem castable_of_mem_tasks {o : Outside} {t : Task} (h : t ∈ o.tasks) : t.Castable := by
  cases o with
  | callback cb _ => exact castable_of_enqueued (Option.mem_toList.mp h)
  | _ => simp [Outside.tasks] at h

theorem filterMap_tick_tasks (o : Outside) :
    o.tasks.filterMap Task.tick? = o.tick?.toList := by
  cases o with
  | callback cb f =>
    cases cb with
    | onFrontConnected => rfl
    | onFrontDisconnected => rfl
    | onHeartBeatWarning => rfl
    | onRspError q => cases q <;> rfl
    | onRtnDepthMarketData p => cases p <;> rfl
    | onRtnForQuoteRsp p => cases p <;> rfl
    | onRspUserLogin p q => cases p <;> cases q <;> rfl
    | onRspUserLogout p q => cases p <;> cases q <;> rfl
    | onRspSubMarketData p q => cases p <;> cases q <;> rfl
    | onRspUnSubMarketData p q => cases p <;> cases q <;> rfl
    | onRspSubForQuoteRsp p q => cases p <;> cases q <;> rfl
    | onRspUnSubForQuoteRsp p q => cases p <;> cases q <;> rfl
  | _ => rfl

def Store.connected {D : Type*} (cfg : Config) (disk : D) : Store D :=
  ((Store.new disk).init).connect cfg

section Runs
variable {D : Type*} {fs : FileSystem D Text Char} {sizes : FieldSizes} {cfg : Config}

def handledTicks (instrumentID : Text) (ts : List (Unit × Task)) :
    List CThostFtdcDepthMarketDataField :=
  (ts.filterMap fun t => t.2.tick?).filter (·.instrumentID = instrumentID)

/-- No failure so far, and every tick file has grown by its handled ticks. -/
structure Recorded (fs : FileSystem D Text Char) (tickPath : Text) (disk : D)
    (ts : List (Unit × Task)) (s : Store D) : Prop where
  no_fault : s.fault = none
  live : s.api = .live
  grown : ∀ id, Grown (fs.contents disk (tickFile tickPath id)) (handledTicks id ts)
    (fs.contents s.disk (tickFile tickPath id))
  others : ∀ q, (∀ id, q ≠ tickFile tickPath id) → fs.contents s.disk q = fs.contents disk q

theorem login_live (hfit : (loginRequest sizes cfg).isSome = true) {s : Store D}
    (hlive : s.api = .live) :
    ∃ req, s.login sizes cfg = { s with
      requestId := s.requestId + 1
      requests := s.requests ++ [.reqUserLogin req (s.requestId + 1)] } := by
  obtain ⟨req, hreq⟩ := Option.isSome_iff_exists.mp hfit
  exact ⟨req, by simp [Store.login, hreq, hlive]⟩

theorem Recorded.callback {tickPath : Text} {disk : D} {ts : List (Unit × Task)} {s : Store D}
    (h : Recorded fs tickPath disk ts s) {cb : Callback} (hcb : cb.nonNull = true)
    (symbolFile : Option Text) : Recorded fs tickPath disk ts (s.callback cb symbolFile) := by
  obtain ⟨t, ht⟩ := Option.isSome_iff_exists.mp ((isSome_enqueued cb).trans hcb)
  cases cb with
  | onRspUserLogin =>
    simp only [Store.callback, ht, Store.subscribe]
    split
    · exact ⟨h.no_fault, h.live, h.grown, h.others⟩
    · exact ⟨h.no_fault, h.live, h.grown, h.others⟩
  | _ => simpa only [Store.callback, ht] using h

theorem Recorded.processTask (hfs : fs.Reliable) (hfit : (loginRequest sizes cfg).isSome = true)
    {disk : D} {ts : List (Unit × Task)} {s : Store D}
    (h : Recorded fs (cfg.read "TickDir".toList []) disk ts s) {t : Task} (ht : t.Castable)
    (w : Unit) : Recorded fs (cfg.read "TickDir".toList []) disk (ts ++ [(w, t)])
      (processTask fs sizes cfg t s) := by
  rcases processTask_cases fs sizes cfg ht s with
    ⟨-, htick, hs⟩ | ⟨md, -, htick, hs⟩ | ⟨-, htick, hs⟩
  · obtain ⟨req, hlogin⟩ := login_live hfit h.live
    have hsame : ∀ id, handledTicks id (ts ++ [(w, t)]) = handledTicks id ts := fun id => by
      simp [handledTicks, htick]
    rw [hs, hlogin]
    exact ⟨h.no_fault, h.live, fun id => (hsame id).symm ▸ h.grown id, h.others⟩
  · rw [hs]
    refine ⟨h.no_fault, h.live, fun id => ?_, fun q hq => ?_⟩
    · simp only [contents_recordTick hfs]
      by_cases hid : md.instrumentID = id
      · subst hid
        have hnext : handledTicks md.instrumentID (ts ++ [(w, t)]) =
            handledTicks md.instrumentID ts ++ [md] := by
          simp [handledTicks, htick]
        rw [if_pos rfl, hnext]
        exact (h.grown md.instrumentID).tickText md _
      · have hsame : handledTicks id (ts ++ [(w, t)]) = handledTicks id ts := by
          simp [handledTicks, htick, hid]
        rw [if_neg fun he => hid (instrumentID_of_tickFile he).symm, hsame]
        exact h.grown id
    · simp only [contents_recordTick hfs]
      rw [if_neg (hq md.instrumentID)]
      exact h.others q hq
  · have hsame : ∀ id, handledTicks id (ts ++ [(w, t)]) = handledTicks id ts := fun id => by
      simp [handledTicks, htick]
    rw [hs]
    exact ⟨h.no_fault, h.live, fun id => (hsame id).symm ▸ h.grown id, h.others⟩

theorem handledTicks_of_drained {s t : TaskLoop.State (Store D) Task} (hs : s.queue = [])
    {es : List (TaskLoop.Event Outside Unit)} (hrun : (recorder fs sizes cfg).run s es = some t)
    (ht : t.queue = []) (id : Text) :
    handledTicks id ((recorder fs sizes cfg).handled es) = arrivedTicks id es := by
  have hposted := TaskLoop.handled_of_drained hs hrun ht
  have hticks : ((recorder fs sizes cfg).handled es).filterMap (fun t => t.2.tick?) =
      ((recorder fs sizes cfg).posted es).filterMap Task.tick? := by
    rw [← hposted, List.filterMap_map]
    rfl
  have houtside : ((recorder fs sizes cfg).posted es).filterMap Task.tick? =
      (TaskLoop.externals es).filterMap Outside.tick? := by
    rw [TaskLoop.posted, List.filterMap_flatMap]
    induction TaskLoop.externals es with
    | nil => rfl
    | cons o os ih =>
      rw [List.flatMap_cons, ih, List.filterMap_cons]
      have ho : ((recorder fs sizes cfg).post o).filterMap Task.tick? = o.tick?.toList :=
        filterMap_tick_tasks o
      rw [ho]
      cases o.tick? <;> rfl
  rw [handledTicks, hticks, houtside, arrivedTicks]

theorem recorded_of_run (hfs : fs.Reliable) (hfit : (loginRequest sizes cfg).isSome = true)
    (disk : D) {es : List (TaskLoop.Event Outside Unit)}
    (hes : ∀ o ∈ TaskLoop.externals es, o.Arrives) {t : TaskLoop.State (Store D) Task}
    (hrun : (recorder fs sizes cfg).run ⟨.connected cfg disk, []⟩ es = some t) :
    Recorded fs (cfg.read "TickDir".toList []) disk ((recorder fs sizes cfg).handled es)
      t.store := by
  refine TaskLoop.run_handled rfl (Recorded fs (cfg.read "TickDir".toList []) disk)
    ⟨rfl, rfl, fun _ => .refl, fun _ _ => rfl⟩ ?_ ?_ hrun
  · intro hs store o store' ho _ hI hacc
    obtain ⟨cb, symbolFile, rfl, hcb⟩ := hes o (TaskLoop.mem_externals.mpr ho)
    simp only [recorder, Store.accept] at hacc
    split at hacc
    · obtain rfl := Option.some.inj hacc
      exact hI.callback hcb symbolFile
    · cases hacc
  · intro hs store w a ha _ hI
    obtain ⟨o, -, ha⟩ := List.mem_flatMap.mp ha
    exact hI.processTask hfs hfit (castable_of_mem_tasks ha) w

theorem castable_of_step {s t : TaskLoop.State (Store D) Task} (h : ∀ a ∈ s.queue, a.Castable)
    {e : TaskLoop.Event Outside Unit} (he : (recorder fs sizes cfg).step s e = some t) :
    ∀ a ∈ t.queue, a.Castable := by
  obtain ⟨-, ⟨o, store, -, -, rfl⟩ | ⟨w, a, queue, -, hq, rfl⟩⟩ := TaskLoop.step_cases he
  · exact List.forall_mem_append.mpr ⟨h, fun a ha => castable_of_mem_tasks ha⟩
  · exact (List.forall_mem_cons.mp (hq ▸ h)).2

theorem castable_of_run {store : Store D} {es : List (TaskLoop.Event Outside Unit)}
    {s : TaskLoop.State (Store D) Task}
    (hrun : (recorder fs sizes cfg).run ⟨store, []⟩ es = some s) :
    ∀ a ∈ s.queue, a.Castable :=
  LabelledRuns.run_invariant (fun s => ∀ a ∈ s.queue, a.Castable)
    (fun _ _ _ h he => castable_of_step h he) (by simp) hrun

/-- The tick file of an instrument in the configured directory. -/
def tickFileOf (cfg : Config) (instrumentID : Text) : Text :=
  tickFile (cfg.read "TickDir".toList []) instrumentID

/-- A recorder in which nothing failed can work off its queue. -/
theorem exists_drained (hfs : fs.Reliable) (hfit : (loginRequest sizes cfg).isSome = true)
    {disk : D} {ts : List (Unit × Task)} {t : TaskLoop.State (Store D) Task}
    (h : Recorded fs (cfg.read "TickDir".toList []) disk ts t.store)
    (hcast : ∀ a ∈ t.queue, a.Castable) :
    ∃ u, (recorder fs sizes cfg).run t (t.queue.map fun _ => .dispatch ()) = some u ∧
      u.queue = [] := by
  obtain ⟨u, hu, -, hq⟩ := TaskLoop.exists_run_dispatches (L := recorder fs sizes cfg)
    (I := fun s => ∃ ts, Recorded fs (cfg.read "TickDir".toList []) disk ts s)
    (q := t.queue) (r := []) (fun s hs => by simp [recorder, hs.choose_spec.no_fault])
    (List.length_map fun _ => ())
    (fun s w a _ ha hs => ⟨_, hs.choose_spec.processTask hfs hfit (hcast a ha) w⟩) ⟨ts, h⟩
  rw [List.append_nil, List.map_map] at hu
  exact ⟨u, hu, hq⟩

variable (fs) in
/-- The consumer gets as far as the first `ON_FRONT_CONNECTED` task in the queue. -/
theorem exists_run_to_login {queue : List Task} (hcast : ∀ a ∈ queue, a.Castable)
    (hlogin : ∃ a ∈ queue, decide (a.name = .onFrontConnected) = true) {s : Store D} {api : Api}
    (hf : s.fault = none) (hapi : s.api = api) :
    ∃ (ws : List Unit) (t : TaskLoop.State (Store D) Task) (a : Task) (rest : List Task),
      (recorder fs sizes cfg).run ⟨s, queue⟩ (ws.map .dispatch) = some t ∧
        (t.store.fault = none ∧ t.store.api = api) ∧ t.queue = a :: rest ∧
        a.name = .onFrontConnected := by
  have hkeep : ∀ s a, a ∈ queue → decide (a.name = .onFrontConnected) = false →
      s.fault = none ∧ s.api = api → ((recorder fs sizes cfg).handle s () a).fault = none ∧
        ((recorder fs sizes cfg).handle s () a).api = api := by
    rintro s a ha hn ⟨hf, hapi⟩
    obtain ⟨hfault, hsame⟩ :=
      processTask_keeps fs sizes cfg (hcast a ha) (of_decide_eq_false hn) s
    exact ⟨hfault.trans hf, hsame.trans hapi⟩
  obtain ⟨ws, t, a, rest, ht, hs, hq, hn⟩ := TaskLoop.exists_run_to_first
    (L := recorder fs sizes cfg) (I := fun s => s.fault = none ∧ s.api = api)
    (fun a => decide (a.name = .onFrontConnected)) (fun s hs => by simp [recorder, hs.1]) ()
    (s := ⟨s, queue⟩) hkeep ⟨hf, hapi⟩ hlogin
  exact ⟨ws, t, a, rest, ht, hs, hq, of_decide_eq_true hn⟩

/-- In every run of callbacks with non-null arguments and consumer steps nothing fails, the
queue can always be worked off, and once it is empty each tick file has grown by one row
for each tick of its instrument, in the order of arrival; no other file has changed. The text of
the file has grown so in any case; its lines are read back as the rows where it ended with a whole
line and no tick has a line break inside. -/
theorem record_ticks (hfs : fs.Reliable) (hfit : (loginRequest sizes cfg).isSome = true)
    (disk : D) (es : List (TaskLoop.Event Outside Unit))
    (hes : ∀ o ∈ TaskLoop.externals es, o.Arrives) (t : TaskLoop.State (Store D) Task)
    (hrun : (recorder fs sizes cfg).run ⟨.connected cfg disk, []⟩ es = some t) :
    t.store.fault = none ∧
    (∃ u, (recorder fs sizes cfg).run t (t.queue.map fun _ => .dispatch ()) = some u ∧
      u.queue = []) ∧
    (t.queue = [] →
      (∀ id, Grown (fs.contents disk (tickFileOf cfg id)) (arrivedTicks id es)
          (fs.contents t.store.disk (tickFileOf cfg id)) ∧
        ∀ ls, fs.contents disk (tickFileOf cfg id) = terminated '\n' ls →
          (∀ l ∈ ls, '\n' ∉ l) → (∀ md ∈ arrivedTicks id es, OneLine md) →
          dataRows (fs.contents t.store.disk (tickFileOf cfg id)) =
            dataRows (fs.contents disk (tickFileOf cfg id)) ++
              (arrivedTicks id es).map tickLine) ∧
      ∀ q, (∀ id, q ≠ tickFileOf cfg id) →
        fs.contents t.store.disk q = fs.contents disk q) := by
  have hrec := recorded_of_run hfs hfit disk hes hrun
  refine ⟨hrec.no_fault, exists_drained hfs hfit hrec (castable_of_run hrun),
    fun hdrained => ⟨fun id => ?_, hrec.others⟩⟩
  have hgrown := hrec.grown id
  rw [handledTicks_of_drained rfl hrun hdrained id] at hgrown
  refine ⟨hgrown, fun ls hls hlines hticks => ?_⟩
  rw [tickFileOf] at hls ⊢
  rw [hls] at hgrown ⊢
  exact hgrown.dataRows hlines hticks

end Runs

section Sample

def sampleTick : CThostFtdcDepthMarketDataField :=
  { CThostFtdcDepthMarketDataField.zeroFilled with instrumentID := "cu1709".toList }

def sampleConfig : Config :=
  { Config.empty with
    contents := (SortedMap.empty : SortedMap Text Text).insert "TickDir".toList
      "./Tick/".toList }

def sampleRun : List (TaskLoop.Event Outside Unit) :=
  [.external (.callback .onFrontConnected none), .dispatch (),
   .external (.callback (.onRtnDepthMarketData (some sampleTick)) none),
   .external (.callback (.onRspSubMarketData (some ⟨"a1801".toList⟩) (some ⟨0, []⟩) 0 true)
      none),
   .dispatch (), .dispatch ()]

theorem record_ticks_sample :
    ∃ t, (recorder flatDisk ⟨11, 16, 41⟩ sampleConfig).run
        ⟨.connected sampleConfig fun _ => [], []⟩ sampleRun = some t ∧
      t.store.fault = none ∧
      dataRows (t.store.disk (tickFileOf sampleConfig "cu1709".toList)) =
        [tickLine sampleTick] := by
  obtain ⟨t, ht, hq⟩ : ∃ t, (recorder flatDisk ⟨11, 16, 41⟩ sampleConfig).run
      ⟨.connected sampleConfig fun _ => [], []⟩ sampleRun = some t ∧ t.queue = [] :=
    ⟨_, rfl, rfl⟩
  have hes : ∀ o ∈ TaskLoop.externals sampleRun, o.Arrives := by
    simp [TaskLoop.externals, sampleRun, Outside.Arrives, Callback.nonNull]
  have harrived : arrivedTicks "cu1709".toList sampleRun = [sampleTick] := rfl
  obtain ⟨hfault, -, hdrained⟩ := record_ticks flatDisk_reliable (by decide) _ sampleRun
    hes t ht
  refine ⟨t, ht, hfault, ?_⟩
  have hrows := ((hdrained hq).1 "cu1709".toList).2 [] rfl (by simp) (by
    rw [harrived]
    intro md hmd
    obtain rfl := List.mem_singleton.mp hmd
    constructor <;> decide)
  rw [harrived] at hrows
  exact hrows

end Sample

end MdApi
end PyCtp
