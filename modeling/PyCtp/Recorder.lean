import PyCtp.RecorderTasks
import PyCtp.SubscribeLoop
import PyCtp.TaskLoops
import PyCtp.TickFiles

/-!
# The recorder

The stand-alone `MdApi` with its consumer thread: `main` calls `init`, `connect` and at the
end `close`, the CTP thread makes the callbacks, and `process_task` handles one task after
the other. Each of these is one step.
-/
namespace PyCtp
namespace MdApi

/-- What ends the process: a null pointer argument, a cast to another type than the held
one, a call through `_api` while it is not live, a string too long for `strcpy_s`, no memory left
for the loop of `subscribe`. -/
inductive Fault
  | nullArgument | badAnyCast | nullApi | invalidParameter | badAlloc
  deriving DecidableEq, Repr

inductive Api
  | uninitialized | live | null
  deriving DecidableEq, Repr

/-- The members of `CThostFtdcReqUserLoginField` that `login` fills in. -/
structure CThostFtdcReqUserLoginField where
  brokerID : Text
  userID : Text
  password : Text
  deriving DecidableEq, Repr

structure FieldSizes where
  brokerID : ℕ
  userID : ℕ
  password : ℕ

inductive Request
  | registerFront (front : Text)
  | reqUserLogin (req : CThostFtdcReqUserLoginField) (nRequestID : ℤ)
  | subscribeMarketData (names : List Text)
  deriving DecidableEq, Repr

/-- The recorder without its queue. `hung` says that the CTP thread is caught in the loop
of `subscribe`. -/
structure Store (D : Type*) where
  disk : D
  started : Bool
  api : Api
  requestId : ℤ
  requests : List Request
  hung : Bool
  fault : Option Fault

/-- `strcpy_s` into a zeroed array, or `none` where the string does not fit. -/
def strcpyS (size : ℕ) (src : Text) : Option Text :=
  let s := Config.cStr src
  if s.length < size then some s else none

/-- The request that `login` builds from the configuration. -/
def loginRequest (sizes : FieldSizes) (cfg : Config) : Option CThostFtdcReqUserLoginField := do
  let brokerID ← strcpyS sizes.brokerID (cfg.read "brokerID".toList [])
  let userID ← strcpyS sizes.userID (cfg.read "investorId".toList [])
  let password ← strcpyS sizes.password (cfg.read "password".toList [])
  return ⟨brokerID, userID, password⟩

namespace Store
variable {D : Type*}

def new (disk : D) : Store D where
  disk := disk
  started := false
  api := .uninitialized
  requestId := 0
  requests := []
  hung := false
  fault := none

def fail (s : Store D) (f : Fault) : Store D := { s with fault := some f }

/-- `init`: start the consumer thread. -/
def init (s : Store D) : Store D := { s with started := true }

/-- `connect`: create the API object and register the front. -/
def connect (cfg : Config) (s : Store D) : Store D :=
  { s with
    api := .live
    requests := s.requests ++
      [.registerFront (Config.cStr (cfg.read "MarketFront".toList []))] }

/-- `close`: the callbacks are unregistered, the object released and the pointer cleared. -/
def close (s : Store D) : Store D := { s with api := .null }

/-- `subscribe`, given what the symbol file holds at that moment. -/
def subscribe (symbolFile : Option Text) (s : Store D) : Store D :=
  match subscribeNames symbolFile with
  | none => { s with hung := true }
  | some names => { s with requests := s.requests ++ [.subscribeMarketData names] }

def login (sizes : FieldSizes) (cfg : Config) (s : Store D) : Store D :=
  match loginRequest sizes cfg with
  | none => s.fail .invalidParameter
  | some req =>
    if s.api = .live then
      { s with
        requestId := s.requestId + 1
        requests := s.requests ++ [.reqUserLogin req (s.requestId + 1)] }
    else s.fail .nullApi

/-- Go on with a payload cast to the given type, or fail with `bad_any_cast`. -/
def withCast (i : FieldType) (a : Payload) (k : i.El → Store D → Store D) (s : Store D) :
    Store D :=
  match a.cast i with
  | none => s.fail .badAnyCast
  | some v => k v s

end Store

section Handlers
variable {D : Type*} (fs : FileSystem D Text Char) (sizes : FieldSizes) (cfg : Config)
  (task : Task)

def processOnFrontConnected : Store D → Store D := Store.login sizes cfg

def processOnFrontDisconneted : Store D → Store D :=
  Store.withCast .int task.taskData fun _ s => s

def processOnHeartbeatWarning : Store D → Store D :=
  Store.withCast .int task.taskData fun _ s => s

def processOnRspUserlogin : Store D → Store D :=
  Store.withCast .rspUserLogin task.taskData fun _ s => s

def processOnRspUserLogout : Store D → Store D :=
  Store.withCast .userLogout task.taskData fun _ s => s

/-- `process_on_rsp_error` alone reads the error container. -/
def processOnRspError : Store D → Store D :=
  Store.withCast .rspInfo task.taskError fun _ s => s

def processOnRspSubmarketData : Store D → Store D :=
  Store.withCast .specificInstrument task.taskData fun _ s => s

def processOnRspUnsubmarketData : Store D → Store D :=
  Store.withCast .specificInstrument task.taskData fun _ s => s

def processOnRspSubForQuoteRsp : Store D → Store D :=
  Store.withCast .specificInstrument task.taskData fun _ s => s

def processOnRspUnsubForQuoteRsp : Store D → Store D :=
  Store.withCast .specificInstrument task.taskData fun _ s => s

def processOnRtnDepthMarketData : Store D → Store D :=
  Store.withCast .depthMarketData task.taskData fun (md : CThostFtdcDepthMarketDataField) s =>
    { s with disk := recordTick fs (cfg.read "TickDir".toList []) md s.disk }

def processOnRtnForQuoteRsp : Store D → Store D :=
  Store.withCast .forQuoteRsp task.taskData fun _ s => s

def processTask (s : Store D) : Store D :=
  match task.name with
  | .onFrontConnected => processOnFrontConnected sizes cfg s
  | .onFrontDisconnected => processOnFrontDisconneted task s
  | .onHeartbeatWarning => processOnHeartbeatWarning task s
  | .onRspUsrlogin => processOnRspUserlogin task s
  | .onRspUsrlogout => processOnRspUserLogout task s
  | .onRspErr => processOnRspError task s
  | .onRspSubmarketData => processOnRspSubmarketData task s
  | .onRspUnsubmarketData => processOnRspUnsubmarketData task s
  | .onRspSubForQuoteRsp => processOnRspSubForQuoteRsp task s
  | .onRspUnsubForQuoteRsp => processOnRspUnsubForQuoteRsp task s
  | .onRtnDepthMarketData => processOnRtnDepthMarketData fs cfg task s
  | .onRtnForQuoteRsp => processOnRtnForQuoteRsp task s
  | .emptyTask => s

end Handlers

/-- What happens outside the consumer thread. A callback comes with the contents of the
symbol file at that moment. -/
inductive Outside
  | init
  | connect
  | callback (cb : Callback) (symbolFile : Option Text)
  | close

/-- What a callback does besides enqueuing its task. -/
def Store.callback {D : Type*} (cb : Callback) (symbolFile : Option Text) (s : Store D) :
    Store D :=
  match enqueued cb, cb with
  | none, _ => s.fail .nullArgument
  | some _, .onRspUserLogin .. => s.subscribe symbolFile
  | some _, _ => s

/-- `init` and `connect` are called once and in this order, callbacks arrive while the API
object lives and its thread is free, `close` is called once after `connect`. -/
def Store.accept {D : Type*} (cfg : Config) (s : Store D) : Outside → Option (Store D)
  | .init => if s.started then none else some s.init
  | .connect => if s.started ∧ s.api = .uninitialized then some (s.connect cfg) else none
  | .callback cb symbolFile =>
    if s.api = .live ∧ s.hung = false then some (s.callback cb symbolFile) else none
  | .close => if s.api = .live then some s.close else none

def Outside.tasks : Outside → List Task
  | .callback cb _ => (enqueued cb).toList
  | _ => []

/-- The recorder as a task loop. -/
def recorder {D : Type*} (fs : FileSystem D Text Char) (sizes : FieldSizes) (cfg : Config) :
    TaskLoop (Store D) Outside Task Unit where
  alive s := s.fault.isNone
  accept := Store.accept cfg
  post := Outside.tasks
  handle s _ task := processTask fs sizes cfg task s

end MdApi
end PyCtp
