import PyCtp.Doubles
import PyCtp.DynamicValues

/-!
# Records and callbacks of the market data API

The CTP structures with the members the program uses, character arrays as C strings, and
the twelve callbacks with the pointers as they arrive. Both front ends receive these and
pass them to their consumer threads in containers of dynamic type.
-/
namespace PyCtp

structure CThostFtdcRspUserLoginField where
  tradingDay : Text
  loginTime : Text
  brokerID : Text
  userID : Text
  systemName : Text
  frontID : ℤ
  sessionID : ℤ
  maxOrderRef : Text
  shfeTime : Text
  dceTime : Text
  czceTime : Text
  ffexTime : Text
  ineTime : Text
  deriving DecidableEq, Repr

structure CThostFtdcUserLogoutField where
  brokerID : Text
  userID : Text
  deriving DecidableEq, Repr

structure CThostFtdcRspInfoField where
  errorID : ℤ
  errorMsg : Text
  deriving DecidableEq, Repr

structure CThostFtdcSpecificInstrumentField where
  instrumentID : Text
  deriving DecidableEq, Repr

structure CThostFtdcDepthMarketDataField where
  tradingDay : Text
  instrumentID : Text
  exchangeID : Text
  exchangeInstID : Text
  lastPrice : Double
  preSettlementPrice : Double
  preClosePrice : Double
  preOpenInterest : Double
  openPrice : Double
  highestPrice : Double
  lowestPrice : Double
  volume : ℤ
  turnover : Double
  openInterest : Double
  closePrice : Double
  settlementPrice : Double
  upperLimitPrice : Double
  lowerLimitPrice : Double
  preDelta : Double
  currDelta : Double
  updateTime : Text
  updateMillisec : ℤ
  bidPrice1 : Double
  bidVolume1 : ℤ
  askPrice1 : Double
  askVolume1 : ℤ
  bidPrice2 : Double
  bidVolume2 : ℤ
  askPrice2 : Double
  askVolume2 : ℤ
  bidPrice3 : Double
  bidVolume3 : ℤ
  askPrice3 : Double
  askVolume3 : ℤ
  bidPrice4 : Double
  bidVolume4 : ℤ
  askPrice4 : Double
  askVolume4 : ℤ
  bidPrice5 : Double
  bidVolume5 : ℤ
  askPrice5 : Double
  askVolume5 : ℤ
  averagePrice : Double
  actionDay : Text

structure CThostFtdcForQuoteRspField where
  tradingDay : Text
  instrumentID : Text
  forQuoteSysID : Text
  forQuoteTime : Text
  actionDay : Text
  exchangeID : Text
  deriving DecidableEq, Repr

section ZeroFilled

def CThostFtdcRspUserLoginField.zeroFilled : CThostFtdcRspUserLoginField :=
  ⟨[], [], [], [], [], 0, 0, [], [], [], [], [], []⟩

def CThostFtdcUserLogoutField.zeroFilled : CThostFtdcUserLogoutField := ⟨[], []⟩

def CThostFtdcRspInfoField.zeroFilled : CThostFtdcRspInfoField := ⟨0, []⟩

def CThostFtdcSpecificInstrumentField.zeroFilled : CThostFtdcSpecificInstrumentField := ⟨[]⟩

def CThostFtdcDepthMarketDataField.zeroFilled : CThostFtdcDepthMarketDataField where
  tradingDay := []
  instrumentID := []
  exchangeID := []
  exchangeInstID := []
  lastPrice := .zero
  preSettlementPrice := .zero
  preClosePrice := .zero
  preOpenInterest := .zero
  openPrice := .zero
  highestPrice := .zero
  lowestPrice := .zero
  volume := 0
  turnover := .zero
  openInterest := .zero
  closePrice := .zero
  settlementPrice := .zero
  upperLimitPrice := .zero
  lowerLimitPrice := .zero
  preDelta := .zero
  currDelta := .zero
  updateTime := []
  updateMillisec := 0
  bidPrice1 := .zero
  bidVolume1 := 0
  askPrice1 := .zero
  askVolume1 := 0
  bidPrice2 := .zero
  bidVolume2 := 0
  askPrice2 := .zero
  askVolume2 := 0
  bidPrice3 := .zero
  bidVolume3 := 0
  askPrice3 := .zero
  askVolume3 := 0
  bidPrice4 := .zero
  bidVolume4 := 0
  askPrice4 := .zero
  askVolume4 := 0
  bidPrice5 := .zero
  bidVolume5 := 0
  askPrice5 := .zero
  askVolume5 := 0
  averagePrice := .zero
  actionDay := []

def CThostFtdcForQuoteRspField.zeroFilled : CThostFtdcForQuoteRspField :=
  ⟨[], [], [], [], [], []⟩

end ZeroFilled

/-- The types a task holds in its two containers. -/
inductive FieldType
  | int | nullptr | rspUserLogin | userLogout | rspInfo | specificInstrument
  | depthMarketData | forQuoteRsp
  deriving DecidableEq, Repr

def FieldType.El : FieldType → Type
  | .int => ℤ
  | .nullptr => Unit
  | .rspUserLogin => CThostFtdcRspUserLoginField
  | .userLogout => CThostFtdcUserLogoutField
  | .rspInfo => CThostFtdcRspInfoField
  | .specificInstrument => CThostFtdcSpecificInstrumentField
  | .depthMarketData => CThostFtdcDepthMarketDataField
  | .forQuoteRsp => CThostFtdcForQuoteRspField

/-- A `boost::any` of a task. -/
abbrev Payload := Any FieldType.El

/-- A call of one of the virtual functions of `CThostFtdcMdSpi`; a null pointer is `none`. -/
inductive Callback
  | onFrontConnected
  | onFrontDisconnected (nReason : ℤ)
  | onHeartBeatWarning (nTimeLapse : ℤ)
  | onRspUserLogin (pRspUserLogin : Option CThostFtdcRspUserLoginField)
      (pRspInfo : Option CThostFtdcRspInfoField) (nRequestID : ℤ) (bIsLast : Bool)
  | onRspUserLogout (pUserLogout : Option CThostFtdcUserLogoutField)
      (pRspInfo : Option CThostFtdcRspInfoField) (nRequestID : ℤ) (bIsLast : Bool)
  | onRspError (pRspInfo : Option CThostFtdcRspInfoField) (nRequestID : ℤ) (bIsLast : Bool)
  | onRspSubMarketData (pSpecificInstrument : Option CThostFtdcSpecificInstrumentField)
      (pRspInfo : Option CThostFtdcRspInfoField) (nRequestID : ℤ) (bIsLast : Bool)
  | onRspUnSubMarketData (pSpecificInstrument : Option CThostFtdcSpecificInstrumentField)
      (pRspInfo : Option CThostFtdcRspInfoField) (nRequestID : ℤ) (bIsLast : Bool)
  | onRspSubForQuoteRsp (pSpecificInstrument : Option CThostFtdcSpecificInstrumentField)
      (pRspInfo : Option CThostFtdcRspInfoField) (nRequestID : ℤ) (bIsLast : Bool)
  | onRspUnSubForQuoteRsp (pSpecificInstrument : Option CThostFtdcSpecificInstrumentField)
      (pRspInfo : Option CThostFtdcRspInfoField) (nRequestID : ℤ) (bIsLast : Bool)
  | onRtnDepthMarketData (pDepthMarketData : Option CThostFtdcDepthMarketDataField)
  | onRtnForQuoteRsp (pForQuoteRsp : Option CThostFtdcForQuoteRspField)

namespace Callback

def nonNull : Callback → Bool
  | onFrontConnected | onFrontDisconnected _ | onHeartBeatWarning _ => true
  | onRspUserLogin p q _ _ => p.isSome && q.isSome
  | onRspUserLogout p q _ _ => p.isSome && q.isSome
  | onRspError q _ _ => q.isSome
  | onRspSubMarketData p q _ _ => p.isSome && q.isSome
  | onRspUnSubMarketData p q _ _ => p.isSome && q.isSome
  | onRspSubForQuoteRsp p q _ _ => p.isSome && q.isSome
  | onRspUnSubForQuoteRsp p q _ _ => p.isSome && q.isSome
  | onRtnDepthMarketData p => p.isSome
  | onRtnForQuoteRsp p => p.isSome

end Callback
end PyCtp
