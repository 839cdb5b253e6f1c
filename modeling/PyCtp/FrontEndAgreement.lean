import PyCtp.RecorderTasks
import PyCtp.BindingRuns

/-!
# Agreement of the two front ends

The tasks that the recorder and the binding enqueue for the same callback, compared part by
part. The recorder has its request ids and integers in different places, the binding uses
one number for all of them.
-/
namespace PyCtp

namespace Callback

def isRsp : Callback → Bool
  | onRspUserLogin .. | onRspUserLogout .. | onRspError .. | onRspSubMarketData ..
  | onRspUnSubMarketData .. | onRspSubForQuoteRsp .. | onRspUnSubForQuoteRsp .. => true
  | _ => false

def hasData : Callback → Bool
  | onFrontConnected | onFrontDisconnected _ | onHeartBeatWarning _ | onRspError .. => false
  | _ => true

end Callback

namespace MdApi

/-- The name by which the binding knows the kind of a task. -/
def TaskName.code : TaskName → ℕ
  | .onFrontConnected => Binding.TaskName.onFrontConnected
  | .onFrontDisconnected => Binding.TaskName.onFrontDisconnected
  | .onHeartbeatWarning => Binding.TaskName.onHeartBeatWarning
  | .onRspUsrlogin => Binding.TaskName.onRspUserLogin
  | .onRspUsrlogout => Binding.TaskName.onRspUserLogout
  | .onRspErr => Binding.TaskName.onRspError
  | .onRspSubmarketData => Binding.TaskName.onRspSubMarketData
  | .onRspUnsubmarketData => Binding.TaskName.onRspUnSubMarketData
  | .onRspSubForQuoteRsp => Binding.TaskName.onRspSubForQuoteRsp
  | .onRspUnsubForQuoteRsp => Binding.TaskName.onRspUnSubForQuoteRsp
  | .onRtnDepthMarketData => Binding.TaskName.onRtnDepthMarketData
  | .onRtnForQuoteRsp => Binding.TaskName.onRtnForQuoteRsp
  | .emptyTask => Binding.Task.new.taskName

/-- The reason or the time lapse where there is one, and else the request id. -/
def Task.number (t : Task) : Option ℤ :=
  match t.name with
  | .onFrontDisconnected | .onHeartbeatWarning => t.taskData.cast FieldType.int
  | _ => some t.requestId

end MdApi

namespace FrontEnds
open Binding (pushed)

/-- The task of the recorder and that of the binding carry the same arguments of the
callback: each part is compared where the callback has it. -/
structure SameArguments (cb : Callback) (r : MdApi.Task) (b : Binding.Task) : Prop where
  name : r.name = MdApi.taskName cb ∧ r.name.code = b.taskName
  number : r.number = some b.taskId
  data : cb.hasData = true → r.taskData = b.taskData
  error : cb.isRsp = true → r.taskError = b.taskError
  last : cb.isRsp = true → r.isLast = b.taskLast

def AgreeOnArguments (cb : Callback) : Prop :=
  ∃ r, MdApi.enqueued cb = some r ∧ SameArguments cb r (pushed cb)

/-- The last flags agree also where they are the default ones. -/
def Agree (cb : Callback) : Prop :=
  ∃ r, MdApi.enqueued cb = some r ∧ SameArguments cb r (pushed cb) ∧
    r.isLast = (pushed cb).taskLast

/-- Where the recorder gets as far as a task, the arguments differ only for the login: the
binding leaves its error empty. -/
theorem sameArguments_iff {cb : Callback} {r : MdApi.Task} (h : MdApi.enqueued cb = some r) :
    SameArguments cb r (pushed cb) ↔ cb.isUserLogin = false := by
  cases MdApi.enqueues_of_enqueued h with
  | onRspUserLogin =>
    refine ⟨fun hsame => ?_, fun hlogin => by cases hlogin⟩
    cases hsame.error rfl
  | onFrontConnected => exact ⟨fun _ => rfl, fun _ => ⟨⟨rfl, rfl⟩, rfl, nofun, nofun, nofun⟩⟩
  | onFrontDisconnected =>
    exact ⟨fun _ => rfl, fun _ => ⟨⟨rfl, rfl⟩, rfl, nofun, nofun, nofun⟩⟩
  | onHeartBeatWarning =>
    exact ⟨fun _ => rfl, fun _ => ⟨⟨rfl, rfl⟩, rfl, nofun, nofun, nofun⟩⟩
  | onRspError =>
    exact ⟨fun _ => rfl, fun _ => ⟨⟨rfl, rfl⟩, rfl, nofun, fun _ => rfl, fun _ => rfl⟩⟩
  | onRtnDepthMarketData =>
    exact ⟨fun _ => rfl, fun _ => ⟨⟨rfl, rfl⟩, rfl, fun _ => rfl, nofun, nofun⟩⟩
  | onRtnForQuoteRsp =>
    exact ⟨fun _ => rfl, fun _ => ⟨⟨rfl, rfl⟩, rfl, fun _ => rfl, nofun, nofun⟩⟩
  | _ => exact ⟨fun _ => rfl, fun _ => ⟨⟨rfl, rfl⟩, rfl, fun _ => rfl, fun _ => rfl, fun _ => rfl⟩⟩

theorem sameLast_iff {cb : Callback} {r : MdApi.Task} (h : MdApi.enqueued cb = some r) :
    r.isLast = (pushed cb).taskLast ↔ cb.isRsp = true := by
  cases MdApi.enqueues_of_enqueued h with
  | onFrontConnected => exact ⟨nofun, nofun⟩
  | onFrontDisconnected => exact ⟨nofun, nofun⟩
  | onHeartBeatWarning => exact ⟨nofun, nofun⟩
  | onRtnDepthMarketData => exact ⟨nofun, nofun⟩
  | onRtnForQuoteRsp => exact ⟨nofun, nofun⟩
  | _ => exact ⟨fun _ => rfl, fun _ => rfl⟩

theorem nonNull_iff (cb : Callback) : cb.nonNull = true ↔ ∃ r, MdApi.enqueued cb = some r := by
  rw [← MdApi.isSome_enqueued, Option.isSome_iff_exists]

/-- For every callback: the two front ends agree on its arguments if and only if it brings
no null pointer and is not the login, and they agree on the default last flag too if and
only if it is moreover a response. -/
theorem front_ends_agree_iff (cb : Callback) :
    (AgreeOnArguments cb ↔ cb.nonNull = true ∧ cb.isUserLogin = false) ∧
      (Agree cb ↔ cb.nonNull = true ∧ cb.isUserLogin = false ∧ cb.isRsp = true) := by
  constructor
  · rw [nonNull_iff]
    constructor
    · rintro ⟨r, hr, hsame⟩
      exact ⟨⟨r, hr⟩, (sameArguments_iff hr).mp hsame⟩
    · rintro ⟨⟨r, hr⟩, hlogin⟩
      exact ⟨r, hr, (sameArguments_iff hr).mpr hlogin⟩
  · rw [nonNull_iff]
    constructor
    · rintro ⟨r, hr, hsame, hlast⟩
      exact ⟨⟨r, hr⟩, (sameArguments_iff hr).mp hsame, (sameLast_iff hr).mp hlast⟩
    · rintro ⟨⟨r, hr⟩, hlogin, hrsp⟩
      exact ⟨r, hr, (sameArguments_iff hr).mpr hlogin, (sameLast_iff hr).mpr hrsp⟩

/-- A login response with both pointers non-null. -/
theorem login_tasks_differ : ¬∀ cb, AgreeOnArguments cb := by
  intro hall
  obtain ⟨r, hr, hsame⟩ :=
    hall (.onRspUserLogin (some .zeroFilled) (some .zeroFilled) 1 true)
  obtain rfl := Option.some.inj hr
  cases hsame.error rfl

end FrontEnds
end PyCtp
