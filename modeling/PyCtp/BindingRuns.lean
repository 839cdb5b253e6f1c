import PyCtp.BindingArguments

/-!
# Runs of the Python binding

What handling the task of a callback does: the login task fails its second cast, the two
tasks about the front are dropped by their wrappers, every other one leads to the call of
the override of the same name.
-/
namespace PyCtp

def Callback.isUserLogin : Callback → Bool
  | .onRspUserLogin .. => true
  | _ => false

def Callback.isFront : Callback → Bool
  | .onFrontConnected | .onFrontDisconnected _ => true
  | _ => false

namespace Binding

/-- The containers that the handler of the task casts hold the types it casts them to. -/
def Task.Castable (t : Task) : Prop :=
  match t.taskName with
  | TaskName.onRspUserLogin =>
    (∃ v, t.taskData = .hold .rspUserLogin v) ∧ ∃ v, t.taskError = .hold .rspInfo v
  | TaskName.onRspUserLogout =>
    (∃ v, t.taskData = .hold .userLogout v) ∧ ∃ v, t.taskError = .hold .rspInfo v
  | TaskName.onRspError => ∃ v, t.taskError = .hold .rspInfo v
  | TaskName.onRspSubMarketData | TaskName.onRspUnSubMarketData
  | TaskName.onRspSubForQuoteRsp | TaskName.onRspUnSubForQuoteRsp =>
    (∃ v, t.taskData = .hold .specificInstrument v) ∧ ∃ v, t.taskError = .hold .rspInfo v
  | TaskName.onRtnDepthMarketData => ∃ v, t.taskData = .hold .depthMarketData v
  | TaskName.onRtnForQuoteRsp => ∃ v, t.taskData = .hold .forQuoteRsp v
  | _ => True

/-- Only the login callback pushes a task that its handler cannot cast. -/
theorem castable_pushed_iff (cb : Callback) : (pushed cb).Castable ↔ cb.isUserLogin = false := by
  cases cb with
  | onRspUserLogin p q n b =>
    refine ⟨fun h => ?_, fun h => by cases h⟩
    obtain ⟨-, v, hv⟩ := h
    cases hv
  | onFrontConnected => exact ⟨fun _ => rfl, fun _ => trivial⟩
  | onFrontDisconnected => exact ⟨fun _ => rfl, fun _ => trivial⟩
  | onHeartBeatWarning => exact ⟨fun _ => rfl, fun _ => trivial⟩
  | onRspError => exact ⟨fun _ => rfl, fun _ => ⟨_, rfl⟩⟩
  | onRtnDepthMarketData => exact ⟨fun _ => rfl, fun _ => ⟨_, rfl⟩⟩
  | onRtnForQuoteRsp => exact ⟨fun _ => rfl, fun _ => ⟨_, rfl⟩⟩
  | _ => exact ⟨fun _ => rfl, fun _ => ⟨⟨_, rfl⟩, ⟨_, rfl⟩⟩⟩

section
variable (toUtf : Text → Text)

/-- The invocation that the handlers make of a callback, were no wrapper to drop it. -/
def expectedCall : Callback → Call
  | .onFrontConnected => ⟨"onFrontConnected", []⟩
  | .onFrontDisconnected nReason => ⟨"onFrontDisconnected", [.int nReason]⟩
  | .onHeartBeatWarning nTimeLapse => ⟨"onHeartBeatWarning", [.int nTimeLapse]⟩
  | .onRspUserLogin p q n b =>
    ⟨"onRspUserLogin", [.dict (userLoginDict toUtf (p.getD .zeroFilled)),
      .dict (errorDict toUtf (q.getD .zeroFilled)), .int n, .bool b]⟩
  | .onRspUserLogout p q n b =>
    ⟨"onRspUserLogout", [.dict (userLogoutDict toUtf (p.getD .zeroFilled)),
      .dict (errorDict toUtf (q.getD .zeroFilled)), .int n, .bool b]⟩
  | .onRspError q n b =>
    ⟨"onRspError", [.dict (errorDict toUtf (q.getD .zeroFilled)), .int n, .bool b]⟩
  | .onRspSubMarketData p q n b =>
    ⟨"onRspSubMarketData", [.dict (specificInstrumentDict toUtf (p.getD .zeroFilled)),
      .dict (errorDict toUtf (q.getD .zeroFilled)), .int n, .bool b]⟩
  | .onRspUnSubMarketData p q n b =>
    ⟨"onRspUnSubMarketData", [.dict (specificInstrumentDict toUtf (p.getD .zeroFilled)),
      .dict (errorDict toUtf (q.getD .zeroFilled)), .int n, .bool b]⟩
  | .onRspSubForQuoteRsp p q n b =>
    ⟨"onRspSubForQuoteRsp", [.dict (specificInstrumentDict toUtf (p.getD .zeroFilled)),
      .dict (errorDict toUtf (q.getD .zeroFilled)), .int n, .bool b]⟩
  | .onRspUnSubForQuoteRsp p q n b =>
    ⟨"onRspUnSubForQuoteRsp", [.dict (specificInstrumentDict toUtf (p.getD .zeroFilled)),
      .dict (errorDict toUtf (q.getD .zeroFilled)), .int n, .bool b]⟩
  | .onRtnDepthMarketData p =>
    ⟨"onRtnDepthMarketData", [.dict (depthMarketDataDict toUtf (p.getD .zeroFilled))]⟩
  | .onRtnForQuoteRsp p =>
    ⟨"onRtnForQuoteRsp", [.dict (forQuoteRspDict toUtf (p.getD .zeroFilled))]⟩

theorem derived_expectedCall (cb : Callback) : Derived toUtf cb (expectedCall toUtf cb) := by
  cases cb with
  | onFrontConnected => exact .frontConnected
  | onFrontDisconnected nReason => exact .frontDisconnected
  | onHeartBeatWarning nTimeLapse => exact .heartBeatWarning
  | onRspUserLogin =>
    exact .rspUserLogin (holdsExactly_userLoginDict _ _) (holdsExactly_errorDict _ _)
  | onRspUserLogout =>
    exact .rspUserLogout (holdsExactly_userLogoutDict _ _) (holdsExactly_errorDict _ _)
  | onRspError => exact .rspError (holdsExactly_errorDict _ _)
  | onRspSubMarketData =>
    exact .rspSubMarketData (holdsExactly_specificInstrumentDict _ _)
      (holdsExactly_errorDict _ _)
  | onRspUnSubMarketData =>
    exact .rspUnSubMarketData (holdsExactly_specificInstrumentDict _ _)
      (holdsExactly_errorDict _ _)
  | onRspSubForQuoteRsp =>
    exact .rspSubForQuoteRsp (holdsExactly_specificInstrumentDict _ _)
      (holdsExactly_errorDict _ _)
  | onRspUnSubForQuoteRsp =>
    exact .rspUnSubForQuoteRsp (holdsExactly_specificInstrumentDict _ _)
      (holdsExactly_errorDict _ _)
  | onRtnDepthMarketData => exact .rtnDepthMarketData (holdsExactly_depthMarketDataDict _ _)
  | onRtnForQuoteRsp => exact .rtnForQuoteRsp (holdsExactly_forQuoteRspDict _ _)

theorem processTask_pushed (w : Outcome) (cb : Callback) (s : Store) :
    processTask toUtf w (pushed cb) s =
      if cb.isUserLogin then { s with fault := some .badAnyCast }
      else if cb.isFront then s
      else s.invoke w (expectedCall toUtf cb).name (expectedCall toUtf cb).args := by
  cases cb <;> rfl

/-- What a run of callbacks and consumer steps has delivered: everything handled so far
except what concerns the front, and the thread lives unless a login was handled or an
override exited. -/
structure Delivered (hs : List (Outcome × Callback)) (s : Store) : Prop where
  calls : s.fault = none →
    s.calls = (hs.filter fun h => !h.2.isFront).map fun h => expectedCall toUtf h.2
  no_fault : (∀ h ∈ hs, h.1 ≠ .exits ∧ h.2.isUserLogin = false) → s.fault = none
  no_cast : (∀ h ∈ hs, h.2.isUserLogin = false) → s.fault ≠ some .badAnyCast

variable {toUtf}

theorem Delivered.processTask {hs : List (Outcome × Callback)} {s : Store}
    (h : Delivered toUtf hs s) (hs' : s.fault = none) (w : Outcome) (cb : Callback) :
    Delivered toUtf (hs ++ [(w, cb)]) (processTask toUtf w (pushed cb) s) := by
  rw [processTask_pushed]
  split
  · rename_i hlogin
    refine ⟨fun hf => (by cases hf), fun hall => ?_, fun hall => ?_⟩
    · have hno := (hall (w, cb) (by simp)).2
      rw [hlogin] at hno
      cases hno
    · have hno := hall (w, cb) (by simp)
      rw [hlogin] at hno
      cases hno
  · split
    · rename_i hfront
      refine ⟨fun hf => ?_, fun _ => hs', fun _ => by simp [hs']⟩
      rw [h.calls hf, List.filter_append]
      simp [hfront]
    · rename_i hfront
      refine ⟨fun _ => ?_, fun hall => ?_, fun _ => ?_⟩
      · rw [Store.invoke, h.calls hs', List.filter_append, List.map_append]
        simp [hfront]
      · have hw := (hall (w, cb) (by simp)).1
        simp [Store.invoke, hw, hs']
      · simp only [Store.invoke, hs']
        split <;> simp

theorem delivered_of_run {es : List (TaskLoop.Event Callback Outcome)}
    {t : TaskLoop.State Store Task} (hrun : (binding toUtf).run ⟨.new, []⟩ es = some t) :
    Delivered toUtf (TaskLoop.heard es) t.store := by
  refine TaskLoop.run_heard (f := pushed) (fun _ => rfl) (Delivered toUtf)
    ⟨fun _ => rfl, fun _ => rfl, fun _ => by simp [Store.new]⟩ ?_ ?_ hrun
  · intro hs s cb s' _ hI hacc
    obtain rfl := Option.some.inj hacc
    exact hI
  · intro hs s w cb _ halive hI
    exact hI.processTask (by simpa [binding] using halive) w cb

theorem tasks_eq_map (cs : List Callback) : cs.flatMap (binding toUtf).post = cs.map pushed :=
  List.map_eq_flatMap.symm

variable (toUtf) in
theorem exists_run_badAnyCast {cs : List Callback} (h : ∃ c ∈ cs, c.isUserLogin = true) :
    ∃ es t, TaskLoop.externals es = cs ∧ (binding toUtf).run ⟨.new, []⟩ es = some t ∧
      t.store.fault = some .badAnyCast := by
  obtain ⟨c, hc⟩ := Option.isSome_iff_exists.mp (List.find?_isSome.mpr h)
  obtain ⟨hlogin, before, after, rfl, hbefore⟩ := List.find?_eq_some_iff_append.mp hc
  have hpush := TaskLoop.run_externals (L := binding toUtf) (before ++ c :: after)
    (s := ⟨.new, []⟩) rfl fun _ _ => rfl
  rw [tasks_eq_map, List.nil_append, List.map_append (f := pushed)] at hpush
  have hkeep : ∀ s w a, w ∈ before.map (fun _ => Outcome.returns) → a ∈ before.map pushed →
      s.fault = none → ((binding toUtf).handle s w a).fault = none := by
    intro s w a hw ha hs
    obtain ⟨-, -, rfl⟩ := List.mem_map.mp hw
    obtain ⟨cb, hcb, rfl⟩ := List.mem_map.mp ha
    have hno : cb.isUserLogin = false := by simpa using hbefore cb hcb
    have htask := processTask_pushed toUtf .returns cb s
    rw [if_neg (by simp [hno])] at htask
    simp only [binding, htask]
    split
    · exact hs
    · simp [Store.invoke, hs]
  obtain ⟨u, hu, hf, hq⟩ := TaskLoop.exists_run_dispatches (L := binding toUtf)
    (I := fun s => s.fault = none) (r := (c :: after).map pushed)
    (fun s hs => by simp [binding, hs]) (by simp) hkeep (show Store.new.fault = none from rfl)
  have hlast : (binding toUtf).step u (.dispatch .returns) =
      some ⟨processTask toUtf .returns (pushed c) u.store, after.map pushed⟩ := by
    simp [TaskLoop.step, binding, hf, hq]
  refine ⟨_, _, ?_, LabelledRuns.run_append.mpr ⟨_, hpush, LabelledRuns.run_concat.mpr
    ⟨u, hu, hlast⟩⟩, ?_⟩
  · rw [TaskLoop.externals_append, TaskLoop.externals_concat_dispatch,
      TaskLoop.externals_map_external, TaskLoop.externals_map_dispatch, List.append_nil]
  · rw [processTask_pushed, if_pos hlogin]

/-- For every sequence of callbacks, whatever pointers are null and whatever the overrides
do: all tasks fetched hold the types their handlers cast to, and no cast throws, if and
only if there is no login callback in the sequence. -/
theorem dispatch_type_safe_iff (toUtf : Text → Text) (cs : List Callback) :
    (∀ es t, TaskLoop.externals es = cs → (binding toUtf).run ⟨.new, []⟩ es = some t →
        (∀ h ∈ (binding toUtf).handled es, h.2.Castable) ∧
          t.store.fault ≠ some .badAnyCast) ↔
      ∀ c ∈ cs, c.isUserLogin = false := by
  constructor
  · intro hsafe c hc
    by_contra hlogin
    obtain ⟨es, t, hes, hrun, hfault⟩ :=
      exists_run_badAnyCast toUtf ⟨c, hc, by simpa using hlogin⟩
    exact (hsafe es t hes hrun).2 hfault
  · rintro hno es t rfl hrun
    constructor
    · intro h hh
      have hposted : h.2 ∈ (binding toUtf).posted es := (List.of_mem_zip hh).2
      rw [TaskLoop.posted, tasks_eq_map] at hposted
      obtain ⟨c, hc, heq⟩ := List.mem_map.mp hposted
      rw [← heq]
      exact (castable_pushed_iff c).mpr (hno c hc)
    · exact (delivered_of_run hrun).no_cast fun h hh => hno h.2 (List.of_mem_zip hh).2

/-- A login response, then one step of the consumer. -/
theorem login_not_type_safe :
    ¬∀ cs es t, TaskLoop.externals es = cs → (binding id).run ⟨.new, []⟩ es = some t →
      t.store.fault ≠ some .badAnyCast := by
  intro hall
  exact hall _ [.external (.onRspUserLogin (some .zeroFilled) (some .zeroFilled) 1 true),
    .dispatch .returns] _ rfl rfl rfl

/-- In every run, for all behaviours of the overrides: as long as no handler was cut off,
the invocations are those of the callbacks handled so far, one each, in order and with the
arguments that they bring, if and only if none of these was about the front; handlers are cut off
by login callbacks and exiting overrides only; and the callbacks handled are the first ones to
arrive, all of them once the queue is empty. -/
theorem deliver_callbacks (toUtf : Text → Text) (es : List (TaskLoop.Event Callback Outcome))
    (t : TaskLoop.State Store Task) (hrun : (binding toUtf).run ⟨.new, []⟩ es = some t) :
    (t.store.fault = none →
      (List.Forall₂ (fun h c => Derived toUtf h.2 c) (TaskLoop.heard es) t.store.calls ↔
        ∀ h ∈ TaskLoop.heard es, h.2.isFront = false)) ∧
    ((∀ h ∈ TaskLoop.heard es, h.1 ≠ .exits ∧ h.2.isUserLogin = false) →
      t.store.fault = none) ∧
    (TaskLoop.heard es).map Prod.snd <+: TaskLoop.externals es ∧
    (t.queue = [] → (TaskLoop.heard es).map Prod.snd = TaskLoop.externals es) := by
  have hdel := delivered_of_run hrun
  refine ⟨fun hf => ?_, hdel.no_fault, TaskLoop.heard_isPrefix es,
    TaskLoop.heard_of_drained (f := pushed) (fun _ => rfl) rfl hrun⟩
  rw [hdel.calls hf]
  constructor
  · intro hall
    have hlength := hall.length_eq
    rw [List.length_map] at hlength
    have hkept := List.filter_sublist.eq_of_length hlength.symm
    simpa only [Bool.not_eq_true'] using List.filter_eq_self.mp hkept
  · intro hno
    rw [List.filter_eq_self.mpr (by simpa only [Bool.not_eq_true'] using hno),
      List.forall₂_map_right_iff]
    exact List.forall₂_same.mpr fun h _ => derived_expectedCall toUtf h.2

def heartbeatRun : List (TaskLoop.Event Callback Outcome) :=
  [.external (.onHeartBeatWarning 10), .dispatch .raises,
    .external (.onRtnDepthMarketData none), .dispatch .missing]

theorem deliver_callbacks_heartbeat :
    ∃ t, (binding id).run ⟨.new, []⟩ heartbeatRun = some t ∧
      List.Forall₂ (fun h c => Derived id h.2 c) (TaskLoop.heard heartbeatRun) t.store.calls := by
  obtain ⟨t, ht, hf⟩ : ∃ t, (binding id).run ⟨.new, []⟩ heartbeatRun = some t ∧
      t.store.fault = none := ⟨_, rfl, rfl⟩
  exact ⟨t, ht, ((deliver_callbacks id heartbeatRun t ht).1 hf).mpr (by decide)⟩

/-- A connection of the front is handled and no override is called. -/
theorem front_connected_not_delivered :
    ¬∀ es t, (binding id).run ⟨.new, []⟩ es = some t → t.store.fault = none →
      List.Forall₂ (fun h c => Derived id h.2 c) (TaskLoop.heard es) t.store.calls := by
  intro hall
  have h := hall [.external .onFrontConnected, .dispatch .returns] _ rfl rfl
  exact absurd h.length_eq (by decide)

end

end Binding
end PyCtp
