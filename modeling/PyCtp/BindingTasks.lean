import PyCtp.CtpRecords

/-!
# The tasks of the Python binding

`Task` of the binding and, for each callback of its `MdApi`, the task it pushes. A null
pointer is replaced by a zero-filled structure; the login callback leaves the error empty.
-/
namespace PyCtp
namespace Binding

namespace TaskName

@[match_pattern] abbrev onFrontConnected : ℕ := 1
@[match_pattern] abbrev onFrontDisconnected : ℕ := 2
@[match_pattern] abbrev onHeartBeatWarning : ℕ := 3
@[match_pattern] abbrev onRspUserLogin : ℕ := 4
@[match_pattern] abbrev onRspUserLogout : ℕ := 5
@[match_pattern] abbrev onRspError : ℕ := 6
@[match_pattern] abbrev onRspSubMarketData : ℕ := 7
@[match_pattern] abbrev onRspUnSubMarketData : ℕ := 8
@[match_pattern] abbrev onRspSubForQuoteRsp : ℕ := 9
@[match_pattern] abbrev onRspUnSubForQuoteRsp : ℕ := 10
@[match_pattern] abbrev onRtnDepthMarketData : ℕ := 11
@[match_pattern] abbrev onRtnForQuoteRsp : ℕ := 12

end TaskName

structure Task where
  taskName : ℕ
  taskData : Payload
  taskError : Payload
  taskId : ℤ
  taskLast : Bool

def Task.new : Task := ⟨0, .empty, .empty, 0, false⟩

def orZero (i : FieldType) (p : Option i.El) (zero : i.El) : Payload := .hold i (p.getD zero)

def errorOrZero (pRspInfo : Option CThostFtdcRspInfoField) : Payload :=
  orZero .rspInfo pRspInfo CThostFtdcRspInfoField.zeroFilled

def onFrontConnected : Task := { Task.new with taskName := TaskName.onFrontConnected }

def onFrontDisconnected (nReason : ℤ) : Task :=
  { Task.new with taskName := TaskName.onFrontDisconnected, taskId := nReason }

def onHeartBeatWarning (nTimeLapse : ℤ) : Task :=
  { Task.new with taskName := TaskName.onHeartBeatWarning, taskId := nTimeLapse }

/-- `OnRspUserLogin` does not look at `pRspInfo`. -/
def onRspUserLogin (pRspUserLogin : Option CThostFtdcRspUserLoginField)
    (_pRspInfo : Option CThostFtdcRspInfoField) (nRequestID : ℤ) (bIsLast : Bool) : Task :=
  { Task.new with
    taskName := TaskName.onRspUserLogin
    taskData := orZero .rspUserLogin pRspUserLogin CThostFtdcRspUserLoginField.zeroFilled
    taskId := nRequestID
    taskLast := bIsLast }

def onRspUserLogout (pUserLogout : Option CThostFtdcUserLogoutField)
    (pRspInfo : Option CThostFtdcRspInfoField) (nRequestID : ℤ) (bIsLast : Bool) : Task where
  taskName := TaskName.onRspUserLogout
  taskData := orZero .userLogout pUserLogout CThostFtdcUserLogoutField.zeroFilled
  taskError := errorOrZero pRspInfo
  taskId := nRequestID
  taskLast := bIsLast

def onRspError (pRspInfo : Option CThostFtdcRspInfoField) (nRequestID : ℤ) (bIsLast : Bool) :
    Task :=
  { Task.new with
    taskName := TaskName.onRspError
    taskError := errorOrZero pRspInfo
    taskId := nRequestID
    taskLast := bIsLast }

/-- A response about an instrument, as four of the callbacks build it. -/
def instrumentTask (taskName : ℕ)
    (pSpecificInstrument : Option CThostFtdcSpecificInstrumentField)
    (pRspInfo : Option CThostFtdcRspInfoField) (nRequestID : ℤ) (bIsLast : Bool) : Task where
  taskName := taskName
  taskData := orZero .specificInstrument pSpecificInstrument
    CThostFtdcSpecificInstrumentField.zeroFilled
  taskError := errorOrZero pRspInfo
  taskId := nRequestID
  taskLast := bIsLast

section
variable (pSpecificInstrument : Option CThostFtdcSpecificInstrumentField)
  (pRspInfo : Option CThostFtdcRspInfoField) (nRequestID : ℤ) (bIsLast : Bool)

def onRspSubMarketData : Task :=
  instrumentTask TaskName.onRspSubMarketData pSpecificInstrument pRspInfo nRequestID bIsLast

def onRspUnSubMarketData : Task :=
  instrumentTask TaskName.onRspUnSubMarketData pSpecificInstrument pRspInfo nRequestID bIsLast

def onRspSubForQuoteRsp : Task :=
  instrumentTask TaskName.onRspSubForQuoteRsp pSpecificInstrument pRspInfo nRequestID bIsLast

def onRspUnSubForQuoteRsp : Task :=
  instrumentTask TaskName.onRspUnSubForQuoteRsp pSpecificInstrument pRspInfo nRequestID bIsLast

end

def onRtnDepthMarketData (pDepthMarketData : Option CThostFtdcDepthMarketDataField) : Task :=
  { Task.new with
    taskName := TaskName.onRtnDepthMarketData
    taskData := orZero .depthMarketData pDepthMarketData
      CThostFtdcDepthMarketDataField.zeroFilled }

def onRtnForQuoteRsp (pForQuoteRsp : Option CThostFtdcForQuoteRspField) : Task :=
  { Task.new with
    taskName := TaskName.onRtnForQuoteRsp
    taskData := orZero .forQuoteRsp pForQuoteRsp CThostFtdcForQuoteRspField.zeroFilled }

/-- The task that a callback pushes. -/
def pushed : Callback → Task
  | .onFrontConnected => onFrontConnected
  | .onFrontDisconnected nReason => onFrontDisconnected nReason
  | .onHeartBeatWarning nTimeLapse => onHeartBeatWarning nTimeLapse
  | .onRspUserLogin p q n b => onRspUserLogin p q n b
  | .onRspUserLogout p q n b => onRspUserLogout p q n b
  | .onRspError q n b => onRspError q n b
  | .onRspSubMarketData p q n b => onRspSubMarketData p q n b
  | .onRspUnSubMarketData p q n b => onRspUnSubMarketData p q n b
  | .onRspSubForQuoteRsp p q n b => onRspSubForQuoteRsp p q n b
  | .onRspUnSubForQuoteRsp p q n b => onRspUnSubForQuoteRsp p q n b
  | .onRtnDepthMarketData p => onRtnDepthMarketData p
  | .onRtnForQuoteRsp p => onRtnForQuoteRsp p

end Binding
end PyCtp
