import PyCtp.RecorderRuns

/-!
# The API handle after `close`

`close` clears `_api` while the consumer thread goes on with the queued tasks. Only the
handler of `ON_FRONT_CONNECTED` uses the handle, and no task is queued after `close`: the
queue at that moment decides whether the null pointer is dereferenced.
-/
namespace PyCtp
namespace MdApi
variable {D : Type*} {fs : FileSystem D Text Char} {sizes : FieldSizes} {cfg : Config}

/-- A task whose handler does not get as far as calling `_api`. -/
def Task.Harmless (sizes : FieldSizes) (cfg : Config) (t : Task) : Prop :=
  t.name = .onFrontConnected → loginRequest sizes cfg = none

/-- After `close`, with only harmless tasks left. -/
structure Closed (sizes : FieldSizes) (cfg : Config) (s : TaskLoop.State (Store D) Task) :
    Prop where
  unused : s.store.fault ≠ some .nullApi
  null : s.store.api = .null
  castable : ∀ a ∈ s.queue, a.Castable
  harmless : ∀ a ∈ s.queue, a.Harmless sizes cfg

variable (fs) in
theorem processTask_harmless {t : Task} (ht : t.Castable) (hharm : t.Harmless sizes cfg)
    {s : Store D} (hs : s.fault ≠ some .nullApi) :
    (processTask fs sizes cfg t s).fault ≠ some .nullApi ∧
      (processTask fs sizes cfg t s).api = s.api := by
  by_cases hn : t.name = .onFrontConnected
  · rw [processTask_of_frontConnected fs sizes cfg hn, Store.login, hharm hn]
    exact ⟨by simp [Store.fail], rfl⟩
  · obtain ⟨hf, hapi⟩ := processTask_keeps fs sizes cfg ht hn s
    exact ⟨hf ▸ hs, hapi⟩

theorem Closed.step {s t : TaskLoop.State (Store D) Task} (h : Closed sizes cfg s)
    {e : TaskLoop.Event Outside Unit} (he : (recorder fs sizes cfg).step s e = some t) :
    Closed sizes cfg t := by
  obtain ⟨-, ⟨o, store, rfl, hacc, rfl⟩ | ⟨w, a, queue, rfl, hq, rfl⟩⟩ := TaskLoop.step_cases he
  · cases o with
    | init =>
      simp only [recorder, Store.accept] at hacc
      split at hacc
      · cases hacc
      · obtain rfl := Option.some.inj hacc
        exact ⟨h.unused, h.null, by simpa [recorder, Outside.tasks] using h.castable,
          by simpa [recorder, Outside.tasks] using h.harmless⟩
    | connect => simp [recorder, Store.accept, h.null] at hacc
    | callback cb f => simp [recorder, Store.accept, h.null] at hacc
    | close => simp [recorder, Store.accept, h.null] at hacc
  · obtain ⟨hcast, hcasts⟩ := List.forall_mem_cons.mp (hq ▸ h.castable)
    obtain ⟨hharm, hharms⟩ := List.forall_mem_cons.mp (hq ▸ h.harmless)
    obtain ⟨hf, hapi⟩ := processTask_harmless fs hcast hharm h.unused
    exact ⟨hf, hapi.trans h.null, hcasts, hharms⟩

theorem step_close {s t : TaskLoop.State (Store D) Task}
    (h : (recorder fs sizes cfg).step s (.external .close) = some t) :
    s.store.fault = none ∧ t = ⟨s.store.close, s.queue⟩ := by
  obtain ⟨halive, ⟨o, store, ho, hacc, rfl⟩ | ⟨w, a, queue, hw, -, -⟩⟩ := TaskLoop.step_cases h
  · obtain rfl := TaskLoop.Event.external.inj ho
    simp only [recorder, Store.accept] at hacc
    split at hacc
    · obtain rfl := Option.some.inj hacc
      exact ⟨by simpa [recorder] using halive, by simp [recorder, Outside.tasks]⟩
    · cases hacc
  · cases hw

variable (fs) in
/-- Handling the queue after `close` up to its first login task uses the null handle. -/
theorem exists_run_nullApi (hfit : (loginRequest sizes cfg).isSome = true) {queue : List Task}
    (hcast : ∀ a ∈ queue, a.Castable) (hlogin : ∃ a ∈ queue, a.name = .onFrontConnected)
    {s : Store D} (hf : s.fault = none) (hnull : s.api = .null) :
    ∃ es t, (recorder fs sizes cfg).run ⟨s, queue⟩ es = some t ∧
      t.store.fault = some .nullApi := by
  obtain ⟨ws, t, a, rest, ht, ⟨hfault, hapi⟩, hq, hn⟩ := exists_run_to_login fs hcast
    (by simpa using hlogin) hf hnull
  obtain ⟨req, hreq⟩ := Option.isSome_iff_exists.mp hfit
  have hlast : (recorder fs sizes cfg).step t (.dispatch ()) =
      some ⟨t.store.login sizes cfg, rest⟩ := by
    simp [TaskLoop.step, recorder, hfault, hq, processTask_of_frontConnected fs sizes cfg hn]
  exact ⟨_, _, LabelledRuns.run_concat.mpr ⟨t, ht, hlast⟩,
    by simp [Store.login, hreq, hapi, Store.fail]⟩

/-- Once `close` has run, no later step uses the null handle if and only if no
`ON_FRONT_CONNECTED` task with a request to send was still queued. -/
theorem close_safe_iff (disk : D) (es : List (TaskLoop.Event Outside Unit))
    (s s' : TaskLoop.State (Store D) Task)
    (hrun : (recorder fs sizes cfg).run ⟨.new disk, []⟩ es = some s)
    (hclose : (recorder fs sizes cfg).step s (.external .close) = some s') :
    (∀ es' t, (recorder fs sizes cfg).run s' es' = some t →
        t.store.fault ≠ some .nullApi) ↔
      ((loginRequest sizes cfg).isSome = true → ∀ a ∈ s.queue, a.name ≠ .onFrontConnected) := by
  obtain ⟨hf, rfl⟩ := step_close hclose
  have hcast := castable_of_run hrun
  constructor
  · intro hsafe hfit a ha hname
    obtain ⟨es', t, ht, hnull⟩ := exists_run_nullApi fs hfit hcast ⟨a, ha, hname⟩
      (s := s.store.close) hf rfl
    exact hsafe es' t ht hnull
  · intro hno es' t ht
    have hclosed : Closed sizes cfg ⟨s.store.close, s.queue⟩ :=
      ⟨by simp [Store.close, hf], rfl, hcast, fun a ha hname => by
        by_contra hfit
        exact hno (Option.isSome_iff_ne_none.mpr hfit) a ha hname⟩
    exact (LabelledRuns.run_invariant (Closed sizes cfg) (fun _ _ _ h he => h.step he) hclosed
      ht).unused

section Sample

theorem close_safe_heartbeat :
    ∃ t, (recorder flatDisk ⟨11, 16, 41⟩ sampleConfig).run
        ⟨(Store.connected sampleConfig fun _ => []).close, [onHeartBeatWarning 10]⟩
        [.dispatch ()] = some t ∧ t.store.fault ≠ some .nullApi := by
  have hqueue : ∀ a ∈ [onHeartBeatWarning 10], a.name ≠ .onFrontConnected := by
    intro a ha
    obtain rfl := List.mem_singleton.mp ha
    decide
  have hrun : (recorder flatDisk ⟨11, 16, 41⟩ sampleConfig).run ⟨.new fun _ => [], []⟩
      [.external .init, .external .connect, .external (.callback (.onHeartBeatWarning 10) none)] =
      some ⟨.connected sampleConfig fun _ => [], [onHeartBeatWarning 10]⟩ := rfl
  exact ⟨_, rfl, (close_safe_iff _ _ _ _ hrun rfl).mpr (fun _ => hqueue) [.dispatch ()] _ rfl⟩

/-- The connection is reported, `main` closes, the consumer handles the report. -/
theorem close_unsafe_after_connected :
    ¬∀ es t, (recorder flatDisk ⟨11, 16, 41⟩ sampleConfig).run ⟨.new fun _ => [], []⟩ es = some t →
      t.store.fault ≠ some .nullApi := by
  intro hall
  exact hall [.external .init, .external .connect, .external (.callback .onFrontConnected none),
    .external .close, .dispatch ()] _ rfl rfl

end Sample

end MdApi
end PyCtp
