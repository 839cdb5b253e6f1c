import PyCtp.BindingTasks
import PyCtp.TaskLoops

/-!
# The Python binding

The consumer thread of the binding's `MdApi`: `processTask` fetches a task, its handler casts
the containers, builds dictionaries and calls the Python override through `MdApiWrap`. What
the override does is the label of the step.
-/
namespace PyCtp
namespace Binding

inductive DictValue
  | int (i : ℤ)
  | float (x : Double)
  | str (s : Text)
  deriving DecidableEq, Repr

/-- A dictionary as its assignments in order; no key is assigned twice. -/
abbrev Dict := List (String × DictValue)

inductive Arg
  | dict (d : Dict)
  | int (i : ℤ)
  | bool (b : Bool)
  deriving DecidableEq, Repr

structure Call where
  name : String
  args : List Arg
  deriving DecidableEq, Repr

/-- What comes of looking up and calling an override. The wrappers print every exception;
printing `SystemExit` ends the process. -/
inductive Outcome
  | returns | raises | missing | exits
  deriving DecidableEq, Repr

/-- What ends the consumer thread: an uncaught `bad_any_cast`, or the process exiting. -/
inductive Fault
  | badAnyCast | exit
  deriving DecidableEq, Repr

structure Store where
  calls : List Call
  fault : Option Fault
  deriving DecidableEq, Repr

def Store.new : Store := ⟨[], none⟩

namespace Store

/-- Go on with a payload cast to the given type, or fail with `bad_any_cast`. -/
def withCast (i : FieldType) (a : Payload) (k : i.El → Store → Store) (s : Store) : Store :=
  match a.cast i with
  | none => { s with fault := some .badAnyCast }
  | some v => k v s

/-- `this->get_override(name)(args...)` inside a wrapper's `try`. -/
def invoke (w : Outcome) (name : String) (args : List Arg) (s : Store) : Store where
  calls := s.calls ++ [⟨name, args⟩]
  fault := if w = .exits then some .exit else s.fault

end Store

section Wrappers
variable (w : Outcome)

/-- `MdApiWrap::onFrontConnected` fetches the override and does not call it. -/
def MdApiWrap.onFrontConnected (s : Store) : Store := s

/-- `MdApiWrap::onFrontDisconnected` does not call it either. -/
def MdApiWrap.onFrontDisconnected (_i : ℤ) (s : Store) : Store := s

def MdApiWrap.onHeartBeatWarning (i : ℤ) : Store → Store :=
  Store.invoke w "onHeartBeatWarning" [.int i]

def MdApiWrap.onRspError (data : Dict) (id : ℤ) (last : Bool) : Store → Store :=
  Store.invoke w "onRspError" [.dict data, .int id, .bool last]

section
variable (data error : Dict) (id : ℤ) (last : Bool)

def MdApiWrap.onRspUserLogin : Store → Store :=
  Store.invoke w "onRspUserLogin" [.dict data, .dict error, .int id, .bool last]

def MdApiWrap.onRspUserLogout : Store → Store :=
  Store.invoke w "onRspUserLogout" [.dict data, .dict error, .int id, .bool last]

def MdApiWrap.onRspSubMarketData : Store → Store :=
  Store.invoke w "onRspSubMarketData" [.dict data, .dict error, .int id, .bool last]

def MdApiWrap.onRspUnSubMarketData : Store → Store :=
  Store.invoke w "onRspUnSubMarketData" [.dict data, .dict error, .int id, .bool last]

def MdApiWrap.onRspSubForQuoteRsp : Store → Store :=
  Store.invoke w "onRspSubForQuoteRsp" [.dict data, .dict error, .int id, .bool last]

def MdApiWrap.onRspUnSubForQuoteRsp : Store → Store :=
  Store.invoke w "onRspUnSubForQuoteRsp" [.dict data, .dict error, .int id, .bool last]

end

def MdApiWrap.onRtnDepthMarketData (data : Dict) : Store → Store :=
  Store.invoke w "onRtnDepthMarketData" [.dict data]

def MdApiWrap.onRtnForQuoteRsp (data : Dict) : Store → Store :=
  Store.invoke w "onRtnForQuoteRsp" [.dict data]

end Wrappers

section Dictionaries
variable (toUtf : Text → Text)

def userLoginDict (d : CThostFtdcRspUserLoginField) : Dict :=
  [ ("SessionID", .int d.sessionID),
    ("MaxOrderRef", .str (toUtf d.maxOrderRef)),
    ("LoginTime", .str (toUtf d.loginTime)),
    ("FFEXTime", .str (toUtf d.ffexTime)),
    ("SystemName", .str (toUtf d.systemName)),
    ("CZCETime", .str (toUtf d.czceTime)),
    ("TradingDay", .str (toUtf d.tradingDay)),
    ("BrokerID", .str (toUtf d.brokerID)),
    ("DCETime", .str (toUtf d.dceTime)),
    ("UserID", .str (toUtf d.userID)),
    ("INETime", .str (toUtf d.ineTime)),
    ("SHFETime", .str (toUtf d.shfeTime)),
    ("FrontID", .int d.frontID) ]

def userLogoutDict (d : CThostFtdcUserLogoutField) : Dict :=
  [ ("BrokerID", .str (toUtf d.brokerID)),
    ("UserID", .str (toUtf d.userID)) ]

def errorDict (d : CThostFtdcRspInfoField) : Dict :=
  [ ("ErrorID", .int d.errorID),
    ("ErrorMsg", .str (toUtf d.errorMsg)) ]

def specificInstrumentDict (d : CThostFtdcSpecificInstrumentField) : Dict :=
  [ ("InstrumentID", .str (toUtf d.instrumentID)) ]

def depthMarketDataDict (d : CThostFtdcDepthMarketDataField) : Dict :=
  [ ("AskPrice5", .float d.askPrice5),
    ("CurrDelta", .float d.currDelta),
    ("AskPrice2", .float d.askPrice2),
    ("BidPrice4", .float d.bidPrice4),
    ("AveragePrice", .float d.averagePrice),
    ("AskVolume4", .int d.askVolume4),
    ("BidPrice1", .float d.bidPrice1),
    ("UpdateTime", .str (toUtf d.updateTime)),
    ("AskPrice4", .float d.askPrice4),
    ("PreOpenInterest", .float d.preOpenInterest),
    ("LastPrice", .float d.lastPrice),
    ("ExchangeInstID", .str (toUtf d.exchangeInstID)),
    ("BidPrice2", .float d.bidPrice2),
    ("BidPrice3", .float d.bidPrice3),
    ("HighestPrice", .float d.highestPrice),
    ("AskPrice3", .float d.askPrice3),
    ("BidVolume5", .int d.bidVolume5),
    ("ActionDay", .str (toUtf d.actionDay)),
    ("PreSettlementPrice", .float d.preSettlementPrice),
    ("BidVolume4", .int d.bidVolume4),
    ("AskVolume2", .int d.askVolume2),
    ("InstrumentID", .str (toUtf d.instrumentID)),
    ("AskVolume3", .int d.askVolume3),
    ("Volume", .int d.volume),
    ("Turnover", .float d.turnover),
    ("BidPrice5", .float d.bidPrice5),
    ("AskVolume5", .int d.askVolume5),
    ("OpenPrice", .float d.openPrice),
    ("PreClosePrice", .float d.preClosePrice),
    ("OpenInterest", .float d.openInterest),
    ("ClosePrice", .float d.closePrice),
    ("LowerLimitPrice", .float d.lowerLimitPrice),
    ("BidVolume3", .int d.bidVolume3),
    ("BidVolume2", .int d.bidVolume2),
    ("UpperLimitPrice", .float d.upperLimitPrice),
    ("BidVolume1", .int d.bidVolume1),
    ("TradingDay", .str (toUtf d.tradingDay)),
    ("AskVolume1", .int d.askVolume1),
    ("AskPrice1", .float d.askPrice1),
    ("SettlementPrice", .float d.settlementPrice),
    ("LowestPrice", .float d.lowestPrice),
    ("UpdateMillisec", .int d.updateMillisec),
    ("PreDelta", .float d.preDelta),
    ("ExchangeID", .str (toUtf d.exchangeID)) ]

def forQuoteRspDict (d : CThostFtdcForQuoteRspField) : Dict :=
  [ ("InstrumentID", .str (toUtf d.instrumentID)),
    ("ExchangeID", .str (toUtf d.exchangeID)),
    ("ForQuoteSysID", .str (toUtf d.forQuoteSysID)),
    ("ForQuoteTime", .str (toUtf d.forQuoteTime)),
    ("ActionDay", .str (toUtf d.actionDay)),
    ("TradingDay", .str (toUtf d.tradingDay)) ]

end Dictionaries

section Handlers
variable (toUtf : Text → Text) (w : Outcome) (task : Task)

def processFrontConnected : Store → Store := MdApiWrap.onFrontConnected

def processFrontDisconnected : Store → Store := MdApiWrap.onFrontDisconnected task.taskId

def processHeartBeatWarning : Store → Store := MdApiWrap.onHeartBeatWarning w task.taskId

/-- A handler with data and error: both containers are cast, the data first. -/
def processResponse (i : FieldType) (dict : i.El → Dict)
    (wrapper : Dict → Dict → ℤ → Bool → Store → Store) : Store → Store :=
  Store.withCast i task.taskData fun data =>
    Store.withCast .rspInfo task.taskError fun error =>
      wrapper (dict data) (errorDict toUtf error) task.taskId task.taskLast

def processRspUserLogin : Store → Store :=
  processResponse toUtf task .rspUserLogin (userLoginDict toUtf) (MdApiWrap.onRspUserLogin w)

def processRspUserLogout : Store → Store :=
  processResponse toUtf task .userLogout (userLogoutDict toUtf) (MdApiWrap.onRspUserLogout w)

def processRspError : Store → Store :=
  Store.withCast .rspInfo task.taskError fun error =>
    MdApiWrap.onRspError w (errorDict toUtf error) task.taskId task.taskLast

def processRspSubMarketData : Store → Store :=
  processResponse toUtf task .specificInstrument (specificInstrumentDict toUtf)
    (MdApiWrap.onRspSubMarketData w)

def processRspUnSubMarketData : Store → Store :=
  processResponse toUtf task .specificInstrument (specificInstrumentDict toUtf)
    (MdApiWrap.onRspUnSubMarketData w)

def processRspSubForQuoteRsp : Store → Store :=
  processResponse toUtf task .specificInstrument (specificInstrumentDict toUtf)
    (MdApiWrap.onRspSubForQuoteRsp w)

def processRspUnSubForQuoteRsp : Store → Store :=
  processResponse toUtf task .specificInstrument (specificInstrumentDict toUtf)
    (MdApiWrap.onRspUnSubForQuoteRsp w)

def processRtnDepthMarketData : Store → Store :=
  Store.withCast .depthMarketData task.taskData fun data =>
    MdApiWrap.onRtnDepthMarketData w (depthMarketDataDict toUtf data)

def processRtnForQuoteRsp : Store → Store :=
  Store.withCast .forQuoteRsp task.taskData fun data =>
    MdApiWrap.onRtnForQuoteRsp w (forQuoteRspDict toUtf data)

/-- One round of `processTask`: the switch on `task_name`. -/
def processTask (s : Store) : Store :=
  match task.taskName with
  | TaskName.onFrontConnected => processFrontConnected s
  | TaskName.onFrontDisconnected => processFrontDisconnected task s
  | TaskName.onHeartBeatWarning => processHeartBeatWarning w task s
  | TaskName.onRspUserLogin => processRspUserLogin toUtf w task s
  | TaskName.onRspUserLogout => processRspUserLogout toUtf w task s
  | TaskName.onRspError => processRspError toUtf w task s
  | TaskName.onRspSubMarketData => processRspSubMarketData toUtf w task s
  | TaskName.onRspUnSubMarketData => processRspUnSubMarketData toUtf w task s
  | TaskName.onRspSubForQuoteRsp => processRspSubForQuoteRsp toUtf w task s
  | TaskName.onRspUnSubForQuoteRsp => processRspUnSubForQuoteRsp toUtf w task s
  | TaskName.onRtnDepthMarketData => processRtnDepthMarketData toUtf w task s
  | TaskName.onRtnForQuoteRsp => processRtnForQuoteRsp toUtf w task s
  | _ => s

end Handlers

/-- The binding as a task loop: callbacks push their tasks whatever the consumer does. -/
def binding (toUtf : Text → Text) : TaskLoop Store Callback Task Outcome where
  alive s := s.fault.isNone
  accept s _ := some s
  post cb := [pushed cb]
  handle s w task := processTask toUtf w task s

end Binding
end PyCtp
