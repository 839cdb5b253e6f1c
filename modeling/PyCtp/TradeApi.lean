import PyCtp.Accounts

/-!
# The trade API

`tdapi` and its callbacks. It logs in when the front connects, asks for all contracts when
a login response arrives and writes the answers to the symbol file. It looks neither at the
error information of a response nor at what a request returns.
-/
namespace PyCtp
open MdApi

namespace Tdapi

inductive Request
  | reqUserLogin (req : CThostFtdcReqUserLoginField) (nRequestID : ℤ)
  | reqQryInstrument (nRequestID : ℤ)
  deriving DecidableEq, Repr

/-- A call of one of the virtual functions that `tdapi` overrides; a null pointer is `none`. -/
inductive Callback
  | onFrontConnected
  | onFrontDisconnected (nReason : ℤ)
  | onHeartBeatWarning (nTimeLapse : ℤ)
  | onRspAuthenticate (pRspInfo : Option CThostFtdcRspInfoField) (nRequestID : ℤ)
      (bIsLast : Bool)
  | onRspUserLogin (pRspUserLogin : Option CThostFtdcRspUserLoginField)
      (pRspInfo : Option CThostFtdcRspInfoField) (nRequestID : ℤ) (bIsLast : Bool)
  | onRspUserLogout (pUserLogout : Option CThostFtdcUserLogoutField)
      (pRspInfo : Option CThostFtdcRspInfoField) (nRequestID : ℤ) (bIsLast : Bool)
  | onRspQryInstrument (pInstrument : Option CThostFtdcInstrumentField)
      (pRspInfo : Option CThostFtdcRspInfoField) (nRequestID : ℤ) (bIsLast : Bool)

/-- How the calls that a callback makes turn out: whether the symbol file opens, and what
the request returns. -/
structure Outcome where
  opens : Bool
  returned : ℤ

structure Store where
  requestId : ℤ
  requests : List Request
  fault : Option Fault
  deriving DecidableEq, Repr

namespace Store

def new : Store := ⟨0, [], none⟩

def fail (s : Store) (f : Fault) : Store := { s with fault := some f }

def login (sizes : FieldSizes) (cfg : Config) (s : Store) : Store :=
  match loginRequest sizes cfg with
  | none => s.fail .invalidParameter
  | some req =>
    { s with
      requestId := s.requestId + 1
      requests := s.requests ++ [.reqUserLogin req (s.requestId + 1)] }

def queryAllContract (s : Store) : Store :=
  { s with
    requestId := s.requestId + 1
    requests := s.requests ++ [.reqQryInstrument (s.requestId + 1)] }

end Store

/-- A callback, on the symbol file and the store. What a request returned is dropped. -/
def callback (sizes : FieldSizes) (cfg : Config) (cb : Callback) (outcome : Outcome)
    (symbolFile : Option Text) (s : Store) : Option Text × Store :=
  match cb with
  | .onFrontConnected => (symbolFile, s.login sizes cfg)
  | .onRspUserLogin .. => (queryAllContract symbolFile, s.queryAllContract)
  | .onRspUserLogout none .. => (symbolFile, s.fail .nullArgument)
  | .onRspQryInstrument (some p) .. => (onRspQryInstrument outcome.opens p symbolFile, s)
  -- the file is opened, and so created, before the pointer is read
  | .onRspQryInstrument none .. =>
    if outcome.opens then (some (symbolFile.getD []), s.fail .nullArgument)
    else (symbolFile, s)
  | .onFrontDisconnected _ | .onHeartBeatWarning _ | .onRspAuthenticate .. |
      .onRspUserLogout (some _) .. => (symbolFile, s)

end Tdapi
end PyCtp
