import PyCtp.CtpRecords

/-!
# The tasks of the recorder

`task_name` and `Task` of the stand-alone recorder and, for each callback of its `MdApi`,
the task it puts into the queue. The callbacks dereference their pointers unchecked: a
null pointer ends them before there is a task.
-/
namespace PyCtp
namespace MdApi

inductive TaskName
  | onFrontConnected | onFrontDisconnected | onHeartbeatWarning | onRspUsrlogin
  | onRspUsrlogout | onRspErr | onRspSubmarketData | onRspUnsubmarketData
  | onRspSubForQuoteRsp | onRspUnsubForQuoteRsp | onRtnDepthMarketData | onRtnForQuoteRsp
  | emptyTask
  deriving DecidableEq, Repr

structure Task where
  name : TaskName
  taskData : Payload
  taskError : Payload
  requestId : ℤ
  isLast : Bool

def Task.new : Task where
  name := .emptyTask
  taskData := .hold .nullptr ()
  taskError := .hold .nullptr ()
  requestId := 0
  isLast := true

/-- A response with data and error, as four of the callbacks build it. -/
def responseTask (name : TaskName) (i : FieldType) (data : Option i.El)
    (pRspInfo : Option CThostFtdcRspInfoField) (nRequestID : ℤ) (bIsLast : Bool) :
    Option Task :=
  data.bind fun data => pRspInfo.map fun error =>
    { name := name
      taskData := .hold i data
      taskError := .hold .rspInfo error
      requestId := nRequestID
      isLast := bIsLast }

def onFrontConnected : Task := { Task.new with name := .onFrontConnected }

def onFrontDisconnected (nReason : ℤ) : Task :=
  { Task.new with name := .onFrontDisconnected, taskData := .hold .int nReason }

def onHeartBeatWarning (nTimeLapse : ℤ) : Task :=
  { Task.new with name := .onHeartbeatWarning, taskData := .hold .int nTimeLapse }

/-- The task alone; the callback goes on to `subscribe`. -/
def onRspUserLogin (pRspUserLogin : Option CThostFtdcRspUserLoginField)
    (pRspInfo : Option CThostFtdcRspInfoField) (nRequestID : ℤ) (bIsLast : Bool) :
    Option Task :=
  responseTask .onRspUsrlogin .rspUserLogin pRspUserLogin pRspInfo nRequestID bIsLast

def onRspUserLogout (pUserLogout : Option CThostFtdcUserLogoutField)
    (pRspInfo : Option CThostFtdcRspInfoField) (nRequestID : ℤ) (bIsLast : Bool) :
    Option Task :=
  responseTask .onRspUsrlogout .userLogout pUserLogout pRspInfo nRequestID bIsLast

/-- `OnRspError` has no data: it keeps a null pointer in its place. -/
def onRspError (pRspInfo : Option CThostFtdcRspInfoField) (nRequestID : ℤ) (bIsLast : Bool) :
    Option Task :=
  pRspInfo.map fun error =>
    { name := .onRspErr
      taskData := .hold .nullptr ()
      taskError := .hold .rspInfo error
      requestId := nRequestID
      isLast := bIsLast }

section
variable (pSpecificInstrument : Option CThostFtdcSpecificInstrumentField)
  (pRspInfo : Option CThostFtdcRspInfoField) (nRequestID : ℤ) (bIsLast : Bool)

def onRspSubMarketData : Option Task :=
  responseTask .onRspSubmarketData .specificInstrument pSpecificInstrument pRspInfo
    nRequestID bIsLast

def onRspUnSubMarketData : Option Task :=
  responseTask .onRspUnsubmarketData .specificInstrument pSpecificInstrument pRspInfo
    nRequestID bIsLast

def onRspSubForQuoteRsp : Option Task :=
  responseTask .onRspSubForQuoteRsp .specificInstrument pSpecificInstrument pRspInfo
    nRequestID bIsLast

def onRspUnSubForQuoteRsp : Option Task :=
  responseTask .onRspUnsubForQuoteRsp .specificInstrument pSpecificInstrument pRspInfo
    nRequestID bIsLast

end

def onRtnDepthMarketData (pDepthMarketData : Option CThostFtdcDepthMarketDataField) :
    Option Task :=
  pDepthMarketData.map fun data =>
    { Task.new with name := .onRtnDepthMarketData, taskData := .hold .depthMarketData data }

def onRtnForQuoteRsp (pForQuoteRsp : Option CThostFtdcForQuoteRspField) : Option Task :=
  pForQuoteRsp.map fun data =>
    { Task.new with name := .onRtnForQuoteRsp, taskData := .hold .forQuoteRsp data }

/-- The task that a callback enqueues, or `none` where it dereferences a null pointer. -/
def enqueued : Callback → Option Task
  | .onFrontConnected => some onFrontConnected
  | .onFrontDisconnected nReason => some (onFrontDisconnected nReason)
  | .onHeartBeatWarning nTimeLapse => some (onHeartBeatWarning nTimeLapse)
  | .onRspUserLogin p q n b => onRspUserLogin p q n b
  | .onRspUserLogout p q n b => onRspUserLogout p q n b
  | .onRspError q n b => onRspError q n b
  | .onRspSubMarketData p q n b => onRspSubMarketData p q n b
  | .onRspUnSubMarketData p q n b => onRspUnSubMarketData p q n b
  | .onRspSubForQuoteRsp p q n b => onRspSubForQuoteRsp p q n b
  | .onRspUnSubForQuoteRsp p q n b => onRspUnSubForQuoteRsp p q n b
  | .onRtnDepthMarketData p => onRtnDepthMarketData p
  | .onRtnForQuoteRsp p => onRtnForQuoteRsp p

def taskName : Callback → TaskName
  | .onFrontConnected => .onFrontConnected
  | .onFrontDisconnected .. => .onFrontDisconnected
  | .onHeartBeatWarning .. => .onHeartbeatWarning
  | .onRspUserLogin .. => .onRspUsrlogin
  | .onRspUserLogout .. => .onRspUsrlogout
  | .onRspError .. => .onRspErr
  | .onRspSubMarketData .. => .onRspSubmarketData
  | .onRspUnSubMarketData .. => .onRspUnsubmarketData
  | .onRspSubForQuoteRsp .. => .onRspSubForQuoteRsp
  | .onRspUnSubForQuoteRsp .. => .onRspUnsubForQuoteRsp
  | .onRtnDepthMarketData .. => .onRtnDepthMarketData
  | .onRtnForQuoteRsp .. => .onRtnForQuoteRsp

theorem isSome_responseTask (name : TaskName) (i : FieldType) (p : Option i.El)
    (q : Option CThostFtdcRspInfoField) (n : ℤ) (b : Bool) :
    (responseTask name i p q n b).isSome = (p.isSome && q.isSome) := by
  cases p with
  | none => rfl
  | some data => cases q <;> rfl

theorem responseTask_eq_some {name : TaskName} {i : FieldType} {p : Option i.El}
    {q : Option CThostFtdcRspInfoField} {n : ℤ} {b : Bool} {t : Task}
    (h : responseTask name i p q n b = some t) :
    ∃ data error, p = some data ∧ q = some error ∧
      t = ⟨name, .hold i data, .hold .rspInfo error, n, b⟩ := by
  cases p with
  | none => cases h
  | some data =>
    cases q with
    | none => cases h
    | some error => exact ⟨data, error, rfl, rfl, (Option.some.inj h).symm⟩

theorem isSome_enqueued (cb : Callback) : (enqueued cb).isSome = cb.nonNull := by
  cases cb with
  | onFrontConnected => rfl
  | onFrontDisconnected => rfl
  | onHeartBeatWarning => rfl
  | onRspError => apply Option.isSome_map
  | onRtnDepthMarketData => apply Option.isSome_map
  | onRtnForQuoteRsp => apply Option.isSome_map
  | _ => apply isSome_responseTask

inductive Enqueues : Callback → Task → Prop
  | onFrontConnected : Enqueues .onFrontConnected onFrontConnected
  | onFrontDisconnected (nReason) :
    Enqueues (.onFrontDisconnected nReason) (onFrontDisconnected nReason)
  | onHeartBeatWarning (nTimeLapse) :
    Enqueues (.onHeartBeatWarning nTimeLapse) (onHeartBeatWarning nTimeLapse)
  | onRspUserLogin (data error n b) : Enqueues (.onRspUserLogin (some data) (some error) n b)
      ⟨.onRspUsrlogin, .hold .rspUserLogin data, .hold .rspInfo error, n, b⟩
  | onRspUserLogout (data error n b) : Enqueues (.onRspUserLogout (some data) (some error) n b)
      ⟨.onRspUsrlogout, .hold .userLogout data, .hold .rspInfo error, n, b⟩
  | onRspError (error n b) : Enqueues (.onRspError (some error) n b)
      ⟨.onRspErr, .hold .nullptr (), .hold .rspInfo error, n, b⟩
  | onRspSubMarketData (data error n b) :
    Enqueues (.onRspSubMarketData (some data) (some error) n b)
      ⟨.onRspSubmarketData, .hold .specificInstrument data, .hold .rspInfo error, n, b⟩
  | onRspUnSubMarketData (data error n b) :
    Enqueues (.onRspUnSubMarketData (some data) (some error) n b)
      ⟨.onRspUnsubmarketData, .hold .specificInstrument data, .hold .rspInfo error, n, b⟩
  | onRspSubForQuoteRsp (data error n b) :
    Enqueues (.onRspSubForQuoteRsp (some data) (some error) n b)
      ⟨.onRspSubForQuoteRsp, .hold .specificInstrument data, .hold .rspInfo error, n, b⟩
  | onRspUnSubForQuoteRsp (data error n b) :
    Enqueues (.onRspUnSubForQuoteRsp (some data) (some error) n b)
      ⟨.onRspUnsubForQuoteRsp, .hold .specificInstrument data, .hold .rspInfo error, n, b⟩
  | onRtnDepthMarketData (data) : Enqueues (.onRtnDepthMarketData (some data))
      { Task.new with name := .onRtnDepthMarketData, taskData := .hold .depthMarketData data }
  | onRtnForQuoteRsp (data) : Enqueues (.onRtnForQuoteRsp (some data))
      { Task.new with name := .onRtnForQuoteRsp, taskData := .hold .forQuoteRsp data }

theorem enqueues_of_enqueued {cb : Callback} {t : Task} (h : enqueued cb = some t) :
    Enqueues cb t := by
  cases cb with
  | onFrontConnected =>
    obtain rfl := Option.some.inj h
    exact .onFrontConnected
  | onFrontDisconnected nReason =>
    obtain rfl := Option.some.inj h
    exact .onFrontDisconnected nReason
  | onHeartBeatWarning nTimeLapse =>
    obtain rfl := Option.some.inj h
    exact .onHeartBeatWarning nTimeLapse
  | onRspError q n b =>
    obtain ⟨error, rfl, rfl⟩ := Option.map_eq_some_iff.mp h
    exact .onRspError error n b
  | onRtnDepthMarketData p =>
    obtain ⟨data, rfl, rfl⟩ := Option.map_eq_some_iff.mp h
    exact .onRtnDepthMarketData data
  | onRtnForQuoteRsp p =>
    obtain ⟨data, rfl, rfl⟩ := Option.map_eq_some_iff.mp h
    exact .onRtnForQuoteRsp data
  | _ =>
    obtain ⟨data, error, rfl, rfl, rfl⟩ := responseTask_eq_some h
    constructor

theorem name_of_enqueued {cb : Callback} {t : Task} (h : enqueued cb = some t) :
    t.name = taskName cb := by
  cases enqueues_of_enqueued h <;> rfl

end MdApi
end PyCtp
