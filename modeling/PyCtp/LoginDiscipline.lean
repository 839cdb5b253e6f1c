import PyCtp.RecorderProgress

/-!
# When the recorder logs in

The front connects and disconnects in turn; the recorder learns of a connection through a
task and logs in when it handles the task. The connection may have gone by then, and a
later one may have come: what rules this out is that no disconnection arrives while an
`ON_FRONT_CONNECTED` task is queued or being handled.
-/
namespace PyCtp
open LabelledRuns

namespace MdApi

/-- The front as CTP sees it: connected or not, the number of connections so far, and for
each `ReqUserLogin` whether the front was connected then and in which session. -/
structure Front where
  up : Bool
  session : ℕ
  logins : List (Bool × ℕ)
  deriving DecidableEq, Repr

def Front.start : Front := ⟨false, 0, []⟩

/-- Login requests are issued only while the front is connected, and at most one in each
session. -/
structure Front.Disciplined (f : Front) : Prop where
  connected : ∀ l ∈ f.logins, l.1 = true
  once : ((f.logins.filter (·.1)).map (·.2)).Nodup

def Request.isLogin : Request → Bool
  | .reqUserLogin .. => true
  | _ => false

/-- Enter the login requests among new requests with the state of the front. -/
def Front.enter (f : Front) (new : List Request) : Front :=
  { f with logins := f.logins ++ (new.filter Request.isLogin).map fun _ => (f.up, f.session) }

theorem Front.Disciplined.of_enter {f : Front} {new : List Request}
    (h : (f.enter new).Disciplined) : f.Disciplined where
  connected l hl := h.connected l (List.mem_append_left _ hl)
  once := (((List.sublist_append_left _ _).filter _).map _).nodup h.once

namespace Threads

/-- A connection is reported only while there is none, a disconnection only of a
connection; everything else may bring login requests. -/
def observe (f : Front) (new : List Request) : Event → Option Front
  | .callback .onFrontConnected _ =>
    if f.up then none else some { f with up := true, session := f.session + 1 }
  | .callback (.onFrontDisconnected _) _ => if f.up then some { f with up := false } else none
  | _ => some (f.enter new)

abbrev Watched (D : Type*) := State D × Front

def Watched.start {D : Type*} (disk : D) : Watched D := (.start disk, .start)

section
variable {D : Type*} (fs : FileSystem D Text Char) (sizes : FieldSizes) (cfg : Config) (width : ℕ)

def watchedStep (s : Watched D) (e : Event) : Option (Watched D) :=
  (step fs sizes cfg width s.1 e).bind fun t =>
    (observe s.2 (t.store.requests.drop s.1.store.requests.length) e).map fun f => (t, f)

def logins (tasks : List Task) : ℕ := tasks.countP fun a => a.name = .onFrontConnected

/-- The tasks in the queue, and the one that the consumer has out and has not handled yet. -/
def awaiting (s : State D) : List Task := s.queue.inner.enqueued.drop s.handled.length

def isDisconnection : Event → Bool
  | .callback (.onFrontDisconnected _) _ => true
  | _ => false

/-- No disconnection arrives while an `ON_FRONT_CONNECTED` task is queued or being handled. -/
def calm (s : Watched D) : List Event → Bool
  | [] => true
  | e :: es =>
    (!isDisconnection e || logins (awaiting s.1) == 0) &&
      match watchedStep fs sizes cfg width s e with
      | none => true
      | some t => calm t es

end

section
variable {D : Type*} {fs : FileSystem D Text Char} {sizes : FieldSizes} {cfg : Config} {width : ℕ}
  {disk : D} {es : List Event}

theorem watchedStep_eq_some {s t : Watched D} {e : Event}
    (h : watchedStep fs sizes cfg width s e = some t) :
    step fs sizes cfg width s.1 e = some t.1 ∧
      observe s.2 (t.1.store.requests.drop s.1.store.requests.length) e = some t.2 := by
  obtain ⟨u, hu, h⟩ := Option.bind_eq_some_iff.mp h
  obtain ⟨f, hf, rfl⟩ := Option.map_eq_some_iff.mp h
  exact ⟨hu, hf⟩

theorem run_of_watched {s t : Watched D} (h : run (watchedStep fs sizes cfg width) s es = some t) :
    run (step fs sizes cfg width) s.1 es = some t.1 := by
  induction es generalizing s with
  | nil => exact congrArg some (congrArg Prod.fst (Option.some.inj h))
  | cons e es ih =>
    obtain ⟨u, hu, h⟩ := run_cons.mp h
    exact run_cons.mpr ⟨u.1, (watchedStep_eq_some hu).1, ih h⟩

section Requests
variable {s t : State D}

theorem subscribe_no_login (symbolFile : Option Text) (s : Store D) :
    ∃ new, (subscribe symbolFile s).requests = s.requests ++ new ∧
      new.filter Request.isLogin = [] := by
  rw [subscribe]
  split
  · exact ⟨[], by simp [Store.fail], rfl⟩
  · rw [Store.subscribe]
    split
    · exact ⟨[], by simp, rfl⟩
    · exact ⟨_, rfl, rfl⟩

theorem no_login_of_step {e : Event} (he : e ≠ .handle)
    (h : step fs sizes cfg width s e = some t) :
    (t.store.requests.drop s.store.requests.length).filter Request.isLogin = [] := by
  obtain ⟨new, hnew, hno⟩ : ∃ new, t.store.requests = s.store.requests ++ new ∧
      new.filter Request.isLogin = [] := by
    cases (step_cases h).2 with
    | connect => exact ⟨_, rfl, rfl⟩
    | subscribe => exact subscribe_no_login _ _
    | handle => exact absurd rfl he
    | _ => exact ⟨[], by simp [Store.init, Store.close, Store.fail], rfl⟩
  rw [hnew, List.drop_left, hno]

variable (fs sizes cfg) in
theorem processTask_logins {a : Task} (ha : a.Castable) (s : Store D) :
    (a.name = .onFrontConnected ∧
      (((processTask fs sizes cfg a s).requests.drop s.requests.length).filter
          Request.isLogin = [] ∨
        ∃ r, ((processTask fs sizes cfg a s).requests.drop s.requests.length).filter
          Request.isLogin = [r])) ∨
    (a.name ≠ .onFrontConnected ∧
      ((processTask fs sizes cfg a s).requests.drop s.requests.length).filter
        Request.isLogin = []) := by
  rcases processTask_cases fs sizes cfg ha s with ⟨hn, -, h⟩ | ⟨md, hn, -, h⟩ | ⟨hn, -, h⟩
  · refine .inl ⟨hn, ?_⟩
    rw [h, Store.login]
    split
    · simp [Store.fail]
    · split
      · exact .inr ⟨_, by rw [List.drop_left]; rfl⟩
      · simp [Store.fail]
  · exact .inr ⟨hn, by simp [h]⟩
  · exact .inr ⟨hn, by simp [h]⟩

end Requests

section Awaiting
variable {s t : State D}

def submitted (s : State D) : List Task :=
  s.queue.inner.enqueued ++ BlockingQueue.inflight s.queue.inner.producer

def unhandled (s : State D) : List Task := (submitted s).drop s.handled.length

theorem submitted_of_queue {e : BlockingQueue.Event Unit Task}
    (he : BlockingQueue.offered [e] = [])
    (h : BlockingQueue.step width s.queue e = some t.queue) : submitted t = submitted s := by
  rcases BlockingQueue.enqueued_of_step h with heq | ⟨x, allocated, -, -, heq⟩
  · rwa [he, List.append_nil] at heq
  · exact heq

theorem unhandled_of_same (hhandled : t.handled = s.handled) (h : submitted t = submitted s) :
    unhandled t = unhandled s := by
  rw [unhandled, unhandled, hhandled, h]

theorem unhandled_of_callback (hwidth : 6 ≤ width)
    (hrun : run (step fs sizes cfg width) (.start disk) es = some s) {task : Task}
    {allocated : Bool} (hhandled : t.handled = s.handled)
    (h : BlockingQueue.step width s.queue (.enqueue task allocated) = some t.queue) :
    unhandled t = unhandled s ++ [task] ∨ unhandled t = unhandled s := by
  have hle := (handled_isPrefix hwidth hrun).length_le
  rcases BlockingQueue.enqueued_of_step h with heq | ⟨x, allocated', -, -, heq⟩
  · refine .inl ?_
    have hsub : submitted t = submitted s ++ [task] := heq
    rw [unhandled, unhandled, hhandled, hsub, List.drop_append_of_le_length]
    rw [submitted, List.length_append]
    omega
  · exact .inr (unhandled_of_same hhandled heq)

theorem unhandled_of_handle (hwidth : 6 ≤ width)
    (hrun : run (step fs sizes cfg width) (.start disk) es = some s) {task : Task}
    (hc : s.queue.consumer () = .returned task) (hhandled : t.handled = s.handled ++ [task])
    (h : submitted t = submitted s) : unhandled s = task :: unhandled t := by
  obtain ⟨rest, hrest⟩ := received_isPrefix hwidth hrun
  have hpending : BlockingQueue.pending s.queue = [task] := by rw [BlockingQueue.pending, hc]
  rw [hpending] at hrest
  have hsub : submitted s = s.handled ++ [task] ++
      (rest ++ BlockingQueue.inflight s.queue.inner.producer) := by
    rw [submitted, ← hrest, List.append_assoc, List.append_assoc]
  rw [unhandled, unhandled, h, hhandled, hsub, List.drop_left, List.append_assoc, List.drop_left]
  rfl

theorem unhandled_of_idle (hwidth : 6 ≤ width)
    (hrun : run (step fs sizes cfg width) (.start disk) es = some s)
    (hp : s.queue.producer = .idle) : unhandled s = awaiting s := by
  have hle := (handled_isPrefix hwidth hrun).length_le
  obtain ⟨hledger, -⟩ := BlockingQueue.ledger_of_run (queue_of_run hrun)
  have hproducing := hledger.producing
  rw [hp] at hproducing
  have hinner : s.queue.inner.producer = .idle := hproducing.1
  rw [unhandled, submitted, hinner, BlockingQueue.inflight, List.append_nil, awaiting]
  · simp
  · simp

end Awaiting

/-- What a step means for the front and the logins to come. -/
inductive Move (s t : Watched D) : Prop
  | connect (down : s.2.up = false)
    (front : t.2 = { s.2 with up := true, session := s.2.session + 1 })
    (queue : logins (unhandled t.1) ≤ logins (unhandled s.1) + 1)
  | disconnect (up : s.2.up = true) (front : t.2 = { s.2 with up := false })
    (outside : s.1.queue.producer = .idle) (queue : logins (unhandled t.1) = logins (unhandled s.1))
  | login (new : List (Bool × ℕ)) (one : new = [] ∨ new = [(s.2.up, s.2.session)])
    (front : t.2 = { s.2 with logins := s.2.logins ++ new })
    (queue : logins (unhandled s.1) = logins (unhandled t.1) + 1)
  | quiet (front : t.2 = s.2) (queue : logins (unhandled t.1) = logins (unhandled s.1))

theorem observe_other {f g : Front} {new : List Request} {e : Event}
    (hc : ∀ allocated, e ≠ .callback .onFrontConnected allocated)
    (hd : ∀ n allocated, e ≠ .callback (.onFrontDisconnected n) allocated)
    (h : observe f new e = some g) : g = f.enter new := by
  unfold observe at h
  split at h
  · exact absurd rfl (hc _)
  · exact absurd rfl (hd _ _)
  · exact (Option.some.inj h).symm

theorem logins_append (as bs : List Task) : logins (as ++ bs) = logins as + logins bs :=
  List.countP_append

theorem logins_singleton (a : Task) :
    logins [a] = if a.name = .onFrontConnected then 1 else 0 := by
  by_cases ha : a.name = .onFrontConnected <;> simp [logins, ha]

theorem logins_cons (a : Task) (as : List Task) :
    logins (a :: as) = (if a.name = .onFrontConnected then 1 else 0) + logins as := by
  rw [← logins_singleton, ← logins_append]
  rfl

theorem move_of_callback (hwidth : 6 ≤ width) {s t : State D} {f g : Front}
    (hrun : run (step fs sizes cfg width) (.start disk) es = some s) {cb : Callback}
    {allocated : Bool} {task : Task} (hcb : enqueued cb = some task)
    (hhandled : t.handled = s.handled)
    (hq : BlockingQueue.step width s.queue (.enqueue task allocated) = some t.queue)
    (hidle : s.queue.producer = .idle) {new : List Request}
    (hnew : new.filter Request.isLogin = [])
    (h : observe f new (.callback cb allocated) = some g) : Move (s, f) (t, g) := by
  have hname := name_of_enqueued hcb
  have hqueue : logins (unhandled t) = logins (unhandled s) + logins [task] ∨
      logins (unhandled t) = logins (unhandled s) := by
    rcases unhandled_of_callback hwidth hrun hhandled hq with heq | heq
    · exact .inl (by rw [heq, logins_append])
    · exact .inr (by rw [heq])
  rw [logins_singleton, hname] at hqueue
  cases cb with
  | onFrontConnected =>
    rw [taskName, if_pos rfl] at hqueue
    cases hup : f.up with
    | true => simp [observe, hup] at h
    | false =>
      refine .connect hup ?_ (by dsimp only; omega)
      simpa [observe, hup] using h.symm
  | onFrontDisconnected n =>
    rw [taskName, if_neg (by simp)] at hqueue
    cases hup : f.up with
    | true =>
      refine .disconnect hup ?_ hidle (by dsimp only; omega)
      simpa [observe, hup] using h.symm
    | false => simp [observe, hup] at h
  | _ =>
    rw [taskName, if_neg (by simp)] at hqueue
    refine .quiet ?_ (by dsimp only; omega)
    have hobs := observe_other (by simp) (by simp) h
    simpa [Front.enter, hnew] using hobs

theorem move_of_handle (hwidth : 6 ≤ width) {s t : State D} {f g : Front}
    (hrun : run (step fs sizes cfg width) (.start disk) es = some s) {task : Task}
    (hc : s.queue.consumer () = .returned task) (hhandled : t.handled = s.handled ++ [task])
    (hq : BlockingQueue.step width s.queue (.leaveDequeue ()) = some t.queue)
    (hstore : t.store = processTask fs sizes cfg task s.store)
    (h : observe f (t.store.requests.drop s.store.requests.length) .handle = some g) :
    Move (s, f) (t, g) := by
  have hmem : task ∈ arrived es := by
    apply mem_arrived_of_mem hrun
    simp [BlockingQueue.pending, hc]
  have hopen := unhandled_of_handle hwidth hrun hc hhandled (submitted_of_queue rfl hq)
  have hobs := observe_other (by simp) (by simp) h
  have hqueue := congrArg logins hopen
  rw [logins_cons] at hqueue
  rw [hstore] at hobs
  rcases processTask_logins fs sizes cfg (castable_of_mem_arrived hmem) s.store with
    ⟨hn, hnew⟩ | ⟨hn, hnew⟩
  · rw [if_pos hn] at hqueue
    refine .login _ ?_ hobs (by dsimp only; omega)
    rcases hnew with hnil | ⟨r, hr⟩
    · exact .inl (by rw [hnil]; rfl)
    · exact .inr (by rw [hr]; rfl)
  · rw [if_neg hn] at hqueue
    refine .quiet ?_ (by dsimp only; omega)
    simpa [Front.enter, hnew] using hobs

theorem move_of_step (hwidth : 6 ≤ width) {s t : Watched D}
    (hrun : run (step fs sizes cfg width) (.start disk) es = some s.1) {e : Event}
    (h : watchedStep fs sizes cfg width s e = some t) : Move s t := by
  obtain ⟨s, f⟩ := s
  obtain ⟨t, g⟩ := t
  obtain ⟨hstep, hfront⟩ := watchedStep_eq_some h
  dsimp only at hrun hstep hfront
  have hquiet : (∀ cb allocated, e ≠ .callback cb allocated) → e ≠ .handle →
      unhandled t = unhandled s → Move (s, f) (t, g) := by
    intro hcallback hhandle hsame
    refine .quiet ?_ (congrArg logins hsame)
    have hobs := observe_other (fun _ => hcallback _ _) (fun _ _ => hcallback _ _) hfront
    simpa [Front.enter, no_login_of_step hhandle hstep] using hobs
  cases (step_cases hstep).2 with
  | @nullArgument cb allocated hcb hapi =>
    refine .quiet ?_ rfl
    have hobs := observe_other (by rintro a ⟨⟩; cases hcb) (by rintro n a ⟨⟩; cases hcb) hfront
    simpa [Front.enter, no_login_of_step (by simp) hstep] using hobs
  | callback hcb hapi hq =>
    refine move_of_callback hwidth hrun hcb rfl hq ?_ (no_login_of_step (by simp) hstep) hfront
    cases BlockingQueue.step_cases hq with
    | enqueue hidle => exact hidle
  | produce hq =>
    exact hquiet (by simp) (by simp) (unhandled_of_same rfl (submitted_of_queue rfl hq))
  | leaveEnqueue hctp hq =>
    exact hquiet (by simp) (by simp) (unhandled_of_same rfl (submitted_of_queue rfl hq))
  | waitDequeue hq =>
    exact hquiet (by simp) (by simp) (unhandled_of_same rfl (submitted_of_queue rfl hq))
  | consume hq =>
    exact hquiet (by simp) (by simp) (unhandled_of_same rfl (submitted_of_queue rfl hq))
  | handle hc hq => exact move_of_handle hwidth hrun hc rfl hq rfl hfront
  | _ => exact hquiet (by simp) (by simp) rfl

/-- In a calm run a login to come belongs to the session that is up and has none yet. -/
structure Timely (s : Watched D) : Prop where
  one : logins (unhandled s.1) ≤ 1
  fresh : logins (unhandled s.1) = 1 → s.2.up = true ∧ ∀ l ∈ s.2.logins, l.2 < s.2.session
  connected : ∀ l ∈ s.2.logins, l.1 = true ∧ l.2 ≤ s.2.session
  once : (s.2.logins.map (·.2)).Nodup

theorem Timely.disciplined {s : Watched D} (h : Timely s) : s.2.Disciplined where
  connected l hl := (h.connected l hl).1
  once := (List.filter_sublist.map _).nodup h.once

theorem timely_start (disk : D) : Timely (Watched.start disk) where
  one := Nat.zero_le 1
  fresh h := absurd h Nat.zero_ne_one
  connected := by simp [Watched.start, Front.start]
  once := List.nodup_nil

/-- Every move keeps `Timely`, a disconnection if no login is to come. -/
theorem Timely.move {s t : Watched D} (h : Timely s) (hm : Move s t)
    (hcalm : t.2.up = false → s.2.up = true → s.1.queue.producer = .idle →
      logins (unhandled s.1) = 0) : Timely t := by
  have hone := h.one
  cases hm with
  | connect down front queue =>
    have hnone : logins (unhandled s.1) = 0 := by
      by_contra hne
      have hup := (h.fresh (by omega)).1
      rw [down] at hup
      cases hup
    refine ⟨by omega, fun _ => ⟨by rw [front], fun l hl => ?_⟩, fun l hl => ?_, ?_⟩
    · rw [front] at hl ⊢
      exact Nat.lt_succ_of_le (h.connected l hl).2
    · rw [front] at hl ⊢
      exact ⟨(h.connected l hl).1, Nat.le_succ_of_le (h.connected l hl).2⟩
    · rw [front]
      exact h.once
  | disconnect up front outside queue =>
    have hnone := hcalm (by rw [front]) up outside
    refine ⟨by omega, fun h1 => by omega, fun l hl => ?_, ?_⟩
    · rw [front] at hl ⊢
      exact h.connected l hl
    · rw [front]
      exact h.once
  | login new one front queue =>
    obtain ⟨hup, hfresh⟩ := h.fresh (by omega)
    refine ⟨by omega, fun h1 => by omega, fun l hl => ?_, ?_⟩
    · rw [front] at hl ⊢
      rcases List.mem_append.mp hl with hl | hl
      · exact h.connected l hl
      · rcases one with rfl | rfl
        · simp at hl
        · obtain rfl := List.mem_singleton.mp hl
          exact ⟨hup, le_rfl⟩
    · rw [front]
      rcases one with rfl | rfl
      · simpa using h.once
      · rw [List.map_append, List.map_singleton]
        refine List.nodup_append.mpr ⟨h.once, List.nodup_singleton _, ?_⟩
        intro k hk j hj hkj
        obtain ⟨l, hl, rfl⟩ := List.mem_map.mp hk
        rw [List.mem_singleton.mp hj] at hkj
        exact absurd hkj (hfresh l hl).ne
  | quiet front queue =>
    refine ⟨by omega, fun h1 => ?_, ?_, ?_⟩
    · rw [front]
      exact h.fresh (by omega)
    · rw [front]
      exact h.connected
    · rw [front]
      exact h.once

theorem isDisconnection_of_observe {f g : Front} {new : List Request} {e : Event}
    (h : observe f new e = some g) (hf : f.up = true) (hg : g.up = false) :
    isDisconnection e = true := by
  unfold observe at h
  split at h
  · simp [hf] at h
  · rfl
  · obtain rfl := Option.some.inj h
    have hclash : true = false := hf.symm.trans hg
    cases hclash

theorem timely_of_run (hwidth : 6 ≤ width) {s t : Watched D} {es' : List Event} (hs : Timely s)
    (hreached : run (step fs sizes cfg width) (.start disk) es' = some s.1)
    (hcalm : calm fs sizes cfg width s es = true)
    (hrun : run (watchedStep fs sizes cfg width) s es = some t) : Timely t := by
  induction es generalizing s es' with
  | nil => exact Option.some.inj hrun ▸ hs
  | cons e es ih =>
    obtain ⟨u, hu, hrun⟩ := run_cons.mp hrun
    obtain ⟨hstep, hfront⟩ := watchedStep_eq_some hu
    simp only [calm, hu, Bool.and_eq_true, Bool.or_eq_true, Bool.not_eq_true',
      beq_iff_eq] at hcalm
    refine ih (hs.move (move_of_step hwidth hreached hu) fun hdown hup hp => ?_)
      (run_concat.mpr ⟨_, hreached, hstep⟩) hcalm.2 hrun
    have hd := isDisconnection_of_observe hfront hup hdown
    rw [unhandled_of_idle hwidth hreached hp]
    simpa [hd] using hcalm.1

section Broken

/-- The steps that the consumer takes, and those of the CTP thread in `enqueue`. -/
def Event.goesOn : Event → Prop
  | .produce | .leaveEnqueue | .waitDequeue | .consume false | .handle => True
  | _ => False

theorem Event.ofConsumer.goesOn {e : Event} (he : e.ofConsumer) : e.goesOn := by
  cases e with
  | consume weak =>
    cases weak with
    | false => trivial
    | true => cases he
  | waitDequeue => trivial
  | handle => trivial
  | _ => cases he

theorem observe_goesOn {e : Event} (he : e.goesOn) (f : Front) (new : List Request) :
    observe f new e = some (f.enter new) := by
  cases e with
  | callback cb allocated => cases he
  | _ => rfl

theorem watchedStep_eq_none {e : Event} (he : e.goesOn) {s : Watched D}
    (h : watchedStep fs sizes cfg width s e = none) : step fs sizes cfg width s.1 e = none := by
  by_contra hsome
  obtain ⟨t, ht⟩ := Option.ne_none_iff_exists'.mp hsome
  simp [watchedStep, ht, observe_goesOn he] at h

/-- The front is down, and a login is to come or was issued then. -/
structure Doomed (fs : FileSystem D Text Char) (sizes : FieldSizes) (cfg : Config) (width : ℕ)
    (disk : D) (s : Watched D) : Prop where
  reached : ∃ es, run (step fs sizes cfg width) (.start disk) es = some s.1
  alive : s.1.store.fault = none
  live : s.1.store.api = .live
  down : s.2.up = false
  login : logins (unhandled s.1) ≠ 0 ∨ ¬s.2.Disciplined

theorem Doomed.step (hwidth : 6 ≤ width) (hfit : (loginRequest sizes cfg).isSome = true)
    {s t : Watched D} (h : Doomed fs sizes cfg width disk s) {e : Event} (he : e.goesOn)
    (hst : watchedStep fs sizes cfg width s e = some t) : Doomed fs sizes cfg width disk t := by
  obtain ⟨s, f⟩ := s
  obtain ⟨t, g⟩ := t
  obtain ⟨⟨es, hrun⟩, halive, hlive, hdown, hlogin⟩ := h
  obtain ⟨hstep, hfront⟩ := watchedStep_eq_some hst
  dsimp only at hrun hstep hfront halive hlive hdown hlogin
  rw [observe_goesOn he] at hfront
  obtain rfl := Option.some.inj hfront
  have hreached : ∃ es, run (Threads.step fs sizes cfg width) (.start disk) es = some t :=
    ⟨es ++ [e], run_concat.mpr ⟨s, hrun, hstep⟩⟩
  have hquiet : t.store = s.store → submitted t = submitted s → t.handled = s.handled →
      Doomed fs sizes cfg width disk
        (t, f.enter (t.store.requests.drop s.store.requests.length)) := by
    intro hstore hsubmitted hhandled
    refine ⟨hreached, hstore ▸ halive, hstore ▸ hlive, hdown, ?_⟩
    dsimp only
    rw [unhandled_of_same hhandled hsubmitted]
    exact hlogin.imp_right fun hnot h => hnot (.of_enter h)
  cases (step_cases hstep).2 with
  | produce hq => exact hquiet rfl (submitted_of_queue rfl hq) rfl
  | leaveEnqueue hctp hq => exact hquiet rfl (submitted_of_queue rfl hq) rfl
  | waitDequeue hq => exact hquiet rfl (submitted_of_queue rfl hq) rfl
  | consume hq => exact hquiet rfl (submitted_of_queue rfl hq) rfl
  | @handle task queue hc hq =>
    have hmem : task ∈ arrived es := by
      apply mem_arrived_of_mem hrun
      simp [BlockingQueue.pending, hc]
    have hcast := castable_of_mem_arrived hmem
    by_cases hn : task.name = .onFrontConnected
    · obtain ⟨req, hreq⟩ := login_live hfit hlive
      have hstore := processTask_of_frontConnected fs sizes cfg hn s.store
      rw [hreq] at hstore
      refine ⟨hreached, ?_, ?_, hdown, .inr fun hdisciplined => ?_⟩
      · dsimp only
        rw [hstore]
        exact halive
      · dsimp only
        rw [hstore]
        exact hlive
      · have hissued := hdisciplined.connected (f.up, f.session) (by
          dsimp only
          rw [hstore]
          simp [Front.enter, Request.isLogin])
        rw [hdown] at hissued
        cases hissued
    · obtain ⟨hfault, hapi⟩ := processTask_keeps fs sizes cfg hcast hn s.store
      refine ⟨hreached, hfault.trans halive, hapi.trans hlive, hdown, ?_⟩
      have hopen := unhandled_of_handle hwidth hrun hc (t := { s with
        queue := queue, store := processTask fs sizes cfg task s.store,
        handled := s.handled ++ [task] }) rfl (submitted_of_queue rfl hq)
      rw [hopen, logins_cons, if_neg hn, Nat.zero_add] at hlogin
      exact hlogin.imp_right fun hnot h => hnot (.of_enter h)
  | _ => cases he

theorem Doomed.exists_idle (hwidth : 6 ≤ width) (hfit : (loginRequest sizes cfg).isSome = true)
    {s : Watched D} (h : Doomed fs sizes cfg width disk s) :
    ∃ es t, run (watchedStep fs sizes cfg width) s es = some t ∧
      Doomed fs sizes cfg width disk t ∧ t.1.queue.producer = .idle := by
  have hstep : ∀ s e t, Doomed fs sizes cfg width disk s → e = .produce ∨ e = .leaveEnqueue →
      watchedStep fs sizes cfg width s e = some t → Doomed fs sizes cfg width disk t ∧
        BlockingQueue.remaining t.1.queue < BlockingQueue.remaining s.1.queue := by
    rintro ⟨s, f⟩ e ⟨t, g⟩ hs he hst
    obtain ⟨hstep, -⟩ := watchedStep_eq_some hst
    dsimp only at hstep
    rcases he with rfl | rfl
    · refine ⟨hs.step hwidth hfit (e := .produce) trivial hst, ?_⟩
      cases (step_cases hstep).2 with
      | produce hq => exact BlockingQueue.remaining_produce hq
    · refine ⟨hs.step hwidth hfit (e := .leaveEnqueue) trivial hst, ?_⟩
      cases (step_cases hstep).2 with
      | leaveEnqueue hctp hq => exact BlockingQueue.remaining_leaveEnqueue hq
  obtain ⟨es, t, -, hrun, ht, hstuck⟩ := exists_run_stuck hstep h
  refine ⟨es, t, hrun, ht, ?_⟩
  by_contra hp
  obtain ⟨es', hreached⟩ := ht.reached
  obtain ⟨hledger, -⟩ := BlockingQueue.ledger_of_run (queue_of_run hreached)
  have hproduce : Threads.step fs sizes cfg width t.1 .produce = none :=
    watchedStep_eq_none (e := .produce) trivial (hstuck _ (.inl rfl))
  have hleave : Threads.step fs sizes cfg width t.1 .leaveEnqueue = none :=
    watchedStep_eq_none (e := .leaveEnqueue) trivial (hstuck _ (.inr rfl))
  by_cases hreturned : ∃ ok, t.1.queue.producer = .returned ok
  · obtain ⟨ok, hok⟩ := hreturned
    obtain ⟨cb, hcb⟩ := enqueuing_of_run hreached hp
    simp [Threads.step, ht.alive, State.advance, hcb, State.onQueue, BlockingQueue.step, hok]
      at hleave
  · have hgoes : ∃ q, BlockingQueue.step width t.1.queue .produce = some q :=
      BlockingQueue.exists_produce hledger hp fun ok hok => hreturned ⟨ok, hok⟩
    obtain ⟨q, hq⟩ := hgoes
    simp [Threads.step, ht.alive, State.advance, State.onQueue, hq] at hproduce

/-- The CTP thread comes back from `enqueue`, and then the consumer gets to the login. -/
theorem Doomed.exists_undisciplined (hwidth : 6 ≤ width)
    (hfit : (loginRequest sizes cfg).isSome = true) {s : Watched D}
    (h : Doomed fs sizes cfg width disk s) :
    ∃ es t, run (watchedStep fs sizes cfg width) s es = some t ∧ ¬t.2.Disciplined := by
  obtain ⟨es, u, hes, hu, hidle⟩ := h.exists_idle hwidth hfit
  obtain ⟨es₁, hreached⟩ := hu.reached
  have hstep : ∀ s e t, Doomed fs sizes cfg width disk s ∧
        Serving fs sizes cfg width disk u.1.queue.inner.enqueued s.1 → e.ofConsumer →
      watchedStep fs sizes cfg width s e = some t →
      (Doomed fs sizes cfg width disk t ∧
        Serving fs sizes cfg width disk u.1.queue.inner.enqueued t.1) ∧
        BlockingQueue.cost t.1.queue < BlockingQueue.cost s.1.queue := by
    rintro s e t ⟨hs, hserving⟩ he hst
    obtain ⟨hnext, hless⟩ := hserving.step hwidth he (watchedStep_eq_some hst).1
    exact ⟨⟨hs.step hwidth hfit he.goesOn hst, hnext⟩, hless⟩
  obtain ⟨es', t, -, hrun, ⟨ht, hserving⟩, hstuck⟩ := exists_run_stuck hstep
    ⟨hu, ⟨_, hreached⟩, started_of_live hreached hu.live, hidle, rfl⟩
  refine ⟨es ++ es', t, run_append.mpr ⟨u, hes, hrun⟩, ?_⟩
  have hnone : ∀ e, e.ofConsumer → Threads.step fs sizes cfg width t.1 e = none :=
    fun e he => watchedStep_eq_none he.goesOn (hstuck e he)
  have hdrained : Drained fs sizes cfg width t.1 := ⟨hserving.started, ht.alive,
    hserving.outside, hnone .waitDequeue trivial, hnone (.consume false) trivial,
    hnone .handle trivial⟩
  obtain ⟨es₂, hlast⟩ := ht.reached
  have hall := handled_of_drained hwidth hlast hdrained
  refine ht.login.resolve_left fun hpending => hpending ?_
  rw [unhandled_of_idle hwidth hlast hserving.outside, awaiting, hall, List.drop_length]
  rfl

end Broken

/-- In every run in which no disconnection arrives while an `ON_FRONT_CONNECTED` task is queued or
being handled, logins are disciplined; and when one does arrive then, there are steps of the
threads after which they are not. -/
theorem login_discipline (hwidth : 6 ≤ width) (disk : D) (es : List Event) (t : Watched D)
    (hrun : run (watchedStep fs sizes cfg width) (.start disk) es = some t) :
    (calm fs sizes cfg width (.start disk) es = true → t.2.Disciplined) ∧
    ((loginRequest sizes cfg).isSome = true → logins (awaiting t.1) ≠ 0 →
      ∀ nReason allocated u,
        watchedStep fs sizes cfg width t (.callback (.onFrontDisconnected nReason) allocated) =
          some u →
        ∃ es' v, run (watchedStep fs sizes cfg width) u es' = some v ∧ ¬v.2.Disciplined) := by
  have hreached := run_of_watched hrun
  refine ⟨fun hcalm => (timely_of_run hwidth (timely_start disk) (run_nil _) hcalm
    hrun).disciplined, fun hfit hpending nReason allocated u hu => ?_⟩
  obtain ⟨hstep, hfront⟩ := watchedStep_eq_some hu
  have hdown : u.2.up = false := by
    cases hup : t.2.up with
    | true =>
      have hnext : { t.2 with up := false } = u.2 := by
        simpa [observe, hup] using hfront
      rw [← hnext]
    | false => simp [observe, hup] at hfront
  obtain ⟨u, g⟩ := u
  dsimp only at hstep hdown
  have halive := (step_cases hstep).1
  cases (step_cases hstep).2 with
  | nullArgument hcb => cases hcb
  | @callback cb allocated task queue hcb hapi hq =>
    have hidle : t.1.queue.producer = .idle := by
      cases BlockingQueue.step_cases hq with
      | enqueue hidle => exact hidle
    rw [← unhandled_of_idle hwidth hreached hidle] at hpending
    refine Doomed.exists_undisciplined hwidth hfit
      ⟨⟨_, run_concat.mpr ⟨_, hreached, hstep⟩⟩, halive, hapi, hdown, .inl ?_⟩
    rcases unhandled_of_callback hwidth hreached (t := { t.1 with
        queue := queue, ctp := .enqueuing (.onFrontDisconnected nReason) }) rfl hq with heq | heq
    · rw [heq, logins_append]
      omega
    · rw [heq]
      exact hpending

end

section Sample

def firstLogin (after : List Event) : List Event :=
  [.init, .connect, .callback .onFrontConnected true, .produce, .produce, .produce, .produce,
    .leaveEnqueue, .waitDequeue] ++ List.replicate 12 (.consume false) ++ after

def calmRun : List Event := firstLogin [.handle, .callback (.onFrontDisconnected 4097) true]

theorem login_discipline_sample :
    ∃ t, run (watchedStep flatDisk ⟨11, 16, 41⟩ sampleConfig 64) (.start fun _ => []) calmRun =
        some t ∧
      t.2.logins = [(true, 1)] ∧ t.2.Disciplined := by
  obtain ⟨t, ht, hlogins⟩ : ∃ t,
      run (watchedStep flatDisk ⟨11, 16, 41⟩ sampleConfig 64) (.start fun _ => []) calmRun =
          some t ∧
        t.2.logins = [(true, 1)] := ⟨_, rfl, rfl⟩
  exact ⟨t, ht, hlogins, (login_discipline (by decide) _ calmRun t ht).1 rfl⟩

/-- The connection is lost after the consumer has taken the task and before it logs in. -/
theorem login_after_disconnection :
    ¬∀ es t, run (watchedStep flatDisk ⟨11, 16, 41⟩ sampleConfig 64) (.start fun _ => []) es =
      some t → t.2.Disciplined := by
  intro hall
  have h := hall (firstLogin [.callback (.onFrontDisconnected 4097) true, .handle]) _ rfl
  exact absurd (h.connected (false, 1) (by decide)) (by decide)

end Sample

end Threads
end MdApi
end PyCtp
