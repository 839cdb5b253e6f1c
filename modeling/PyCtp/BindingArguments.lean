import PyCtp.Binding

/-!
# The arguments of the overrides

What Python is to find in the dictionaries: under the name of each member of the structure that a
callback brings, this member, and nothing else. The members stand in the order of the structure;
the handlers assign them in another one.
-/
namespace PyCtp
namespace Binding

/-- The value that Python finds under a key: of several assigned the last one. -/
def Dict.value (d : Dict) (key : String) : Option DictValue := d.reverse.lookup key

/-- The dictionary has these values under these keys, and no other keys. -/
def Dict.HoldsExactly (d : Dict) (members : List (String × DictValue)) : Prop :=
  ∀ key v, d.value key = some v ↔ (key, v) ∈ members

section Members
variable (toUtf : Text → Text)

def loginMembers (r : CThostFtdcRspUserLoginField) :
    List (String × DictValue) :=
  [ ("TradingDay", .str (toUtf r.tradingDay)),
    ("LoginTime", .str (toUtf r.loginTime)),
    ("BrokerID", .str (toUtf r.brokerID)),
    ("UserID", .str (toUtf r.userID)),
    ("SystemName", .str (toUtf r.systemName)),
    ("FrontID", .int r.frontID),
    ("SessionID", .int r.sessionID),
    ("MaxOrderRef", .str (toUtf r.maxOrderRef)),
    ("SHFETime", .str (toUtf r.shfeTime)),
    ("DCETime", .str (toUtf r.dceTime)),
    ("CZCETime", .str (toUtf r.czceTime)),
    ("FFEXTime", .str (toUtf r.ffexTime)),
    ("INETime", .str (toUtf r.ineTime)) ]

def logoutMembers (r : CThostFtdcUserLogoutField) :
    List (String × DictValue) :=
  [ ("BrokerID", .str (toUtf r.brokerID)),
    ("UserID", .str (toUtf r.userID)) ]

def errorMembers (r : CThostFtdcRspInfoField) : List (String × DictValue) :=
  [ ("ErrorID", .int r.errorID),
    ("ErrorMsg", .str (toUtf r.errorMsg)) ]

def instrumentMembers (r : CThostFtdcSpecificInstrumentField) :
    List (String × DictValue) :=
  [ ("InstrumentID", .str (toUtf r.instrumentID)) ]

def depthMembers (r : CThostFtdcDepthMarketDataField) :
    List (String × DictValue) :=
  [ ("TradingDay", .str (toUtf r.tradingDay)),
    ("InstrumentID", .str (toUtf r.instrumentID)),
    ("ExchangeID", .str (toUtf r.exchangeID)),
    ("ExchangeInstID", .str (toUtf r.exchangeInstID)),
    ("LastPrice", .float r.lastPrice),
    ("PreSettlementPrice", .float r.preSettlementPrice),
    ("PreClosePrice", .float r.preClosePrice),
    ("PreOpenInterest", .float r.preOpenInterest),
    ("OpenPrice", .float r.openPrice),
    ("HighestPrice", .float r.highestPrice),
    ("LowestPrice", .float r.lowestPrice),
    ("Volume", .int r.volume),
    ("Turnover", .float r.turnover),
    ("OpenInterest", .float r.openInterest),
    ("ClosePrice", .float r.closePrice),
    ("SettlementPrice", .float r.settlementPrice),
    ("UpperLimitPrice", .float r.upperLimitPrice),
    ("LowerLimitPrice", .float r.lowerLimitPrice),
    ("PreDelta", .float r.preDelta),
    ("CurrDelta", .float r.currDelta),
    ("UpdateTime", .str (toUtf r.updateTime)),
    ("UpdateMillisec", .int r.updateMillisec),
    ("BidPrice1", .float r.bidPrice1),
    ("BidVolume1", .int r.bidVolume1),
    ("AskPrice1", .float r.askPrice1),
    ("AskVolume1", .int r.askVolume1),
    ("BidPrice2", .float r.bidPrice2),
    ("BidVolume2", .int r.bidVolume2),
    ("AskPrice2", .float r.askPrice2),
    ("AskVolume2", .int r.askVolume2),
    ("BidPrice3", .float r.bidPrice3),
    ("BidVolume3", .int r.bidVolume3),
    ("AskPrice3", .float r.askPrice3),
    ("AskVolume3", .int r.askVolume3),
    ("BidPrice4", .float r.bidPrice4),
    ("BidVolume4", .int r.bidVolume4),
    ("AskPrice4", .float r.askPrice4),
    ("AskVolume4", .int r.askVolume4),
    ("BidPrice5", .float r.bidPrice5),
    ("BidVolume5", .int r.bidVolume5),
    ("AskPrice5", .float r.askPrice5),
    ("AskVolume5", .int r.askVolume5),
    ("AveragePrice", .float r.averagePrice),
    ("ActionDay", .str (toUtf r.actionDay)) ]

def quoteMembers (r : CThostFtdcForQuoteRspField) :
    List (String × DictValue) :=
  [ ("TradingDay", .str (toUtf r.tradingDay)),
    ("InstrumentID", .str (toUtf r.instrumentID)),
    ("ForQuoteSysID", .str (toUtf r.forQuoteSysID)),
    ("ForQuoteTime", .str (toUtf r.forQuoteTime)),
    ("ActionDay", .str (toUtf r.actionDay)),
    ("ExchangeID", .str (toUtf r.exchangeID)) ]

end Members

section
variable (toUtf : Text → Text)

/-- The call that a callback is to lead to: the override of its name, with what its arguments
say; a null pointer stands for a zero-filled structure. -/
inductive Derived : Callback → Call → Prop
  | frontConnected : Derived .onFrontConnected ⟨"onFrontConnected", []⟩
  | frontDisconnected {nReason : ℤ} :
    Derived (.onFrontDisconnected nReason) ⟨"onFrontDisconnected", [.int nReason]⟩
  | heartBeatWarning {nTimeLapse : ℤ} :
    Derived (.onHeartBeatWarning nTimeLapse) ⟨"onHeartBeatWarning", [.int nTimeLapse]⟩
  | rspUserLogin {p q} {n : ℤ} {b : Bool} {data error : Dict}
    (hdata : data.HoldsExactly (loginMembers toUtf (p.getD .zeroFilled)))
    (herror : error.HoldsExactly (errorMembers toUtf (q.getD .zeroFilled))) :
    Derived (.onRspUserLogin p q n b)
      ⟨"onRspUserLogin", [.dict data, .dict error, .int n, .bool b]⟩
  | rspUserLogout {p q} {n : ℤ} {b : Bool} {data error : Dict}
    (hdata : data.HoldsExactly (logoutMembers toUtf (p.getD .zeroFilled)))
    (herror : error.HoldsExactly (errorMembers toUtf (q.getD .zeroFilled))) :
    Derived (.onRspUserLogout p q n b)
      ⟨"onRspUserLogout", [.dict data, .dict error, .int n, .bool b]⟩
  | rspError {q} {n : ℤ} {b : Bool} {error : Dict}
    (herror : error.HoldsExactly (errorMembers toUtf (q.getD .zeroFilled))) :
    Derived (.onRspError q n b) ⟨"onRspError", [.dict error, .int n, .bool b]⟩
  | rspSubMarketData {p q} {n : ℤ} {b : Bool} {data error : Dict}
    (hdata : data.HoldsExactly (instrumentMembers toUtf (p.getD .zeroFilled)))
    (herror : error.HoldsExactly (errorMembers toUtf (q.getD .zeroFilled))) :
    Derived (.onRspSubMarketData p q n b)
      ⟨"onRspSubMarketData", [.dict data, .dict error, .int n, .bool b]⟩
  | rspUnSubMarketData {p q} {n : ℤ} {b : Bool} {data error : Dict}
    (hdata : data.HoldsExactly (instrumentMembers toUtf (p.getD .zeroFilled)))
    (herror : error.HoldsExactly (errorMembers toUtf (q.getD .zeroFilled))) :
    Derived (.onRspUnSubMarketData p q n b)
      ⟨"onRspUnSubMarketData", [.dict data, .dict error, .int n, .bool b]⟩
  | rspSubForQuoteRsp {p q} {n : ℤ} {b : Bool} {data error : Dict}
    (hdata : data.HoldsExactly (instrumentMembers toUtf (p.getD .zeroFilled)))
    (herror : error.HoldsExactly (errorMembers toUtf (q.getD .zeroFilled))) :
    Derived (.onRspSubForQuoteRsp p q n b)
      ⟨"onRspSubForQuoteRsp", [.dict data, .dict error, .int n, .bool b]⟩
  | rspUnSubForQuoteRsp {p q} {n : ℤ} {b : Bool} {data error : Dict}
    (hdata : data.HoldsExactly (instrumentMembers toUtf (p.getD .zeroFilled)))
    (herror : error.HoldsExactly (errorMembers toUtf (q.getD .zeroFilled))) :
    Derived (.onRspUnSubForQuoteRsp p q n b)
      ⟨"onRspUnSubForQuoteRsp", [.dict data, .dict error, .int n, .bool b]⟩
  | rtnDepthMarketData {p} {data : Dict}
    (hdata : data.HoldsExactly (depthMembers toUtf (p.getD .zeroFilled))) :
    Derived (.onRtnDepthMarketData p) ⟨"onRtnDepthMarketData", [.dict data]⟩
  | rtnForQuoteRsp {p} {data : Dict}
    (hdata : data.HoldsExactly (quoteMembers toUtf (p.getD .zeroFilled))) :
    Derived (.onRtnForQuoteRsp p) ⟨"onRtnForQuoteRsp", [.dict data]⟩

end

section Builders

theorem mem_of_value {d : Dict} {key : String} {v : DictValue} (h : d.value key = some v) :
    (key, v) ∈ d := by
  obtain ⟨l, r, hd, -⟩ := List.lookup_eq_some_iff.mp h
  rw [← List.mem_reverse, hd]
  simp

theorem value_of_mem {d : Dict} (hkeys : (d.map Prod.fst).Nodup) {key : String} {v : DictValue}
    (h : (key, v) ∈ d) : d.value key = some v := by
  obtain ⟨l, r, rfl⟩ := List.append_of_mem h
  rw [Dict.value, List.lookup_eq_some_iff]
  refine ⟨r.reverse, l.reverse, by simp, fun p hp => ?_⟩
  rw [List.map_append, List.map_cons, List.nodup_append, List.nodup_cons] at hkeys
  obtain ⟨-, ⟨hnot, -⟩, -⟩ := hkeys
  rw [List.mem_reverse] at hp
  have hmem : p.1 ∈ r.map Prod.fst := List.mem_map_of_mem hp
  simpa using fun heq : key = p.1 => hnot (heq ▸ hmem)

/-- A dictionary with distinct keys holds its assignments, in whatever order they were made. -/
theorem holdsExactly_of_perm {d members : List (String × DictValue)}
    (hkeys : (d.map Prod.fst).Nodup) (hperm : d.Perm members) :
    Dict.HoldsExactly d members := fun _ _ =>
  ⟨fun h => hperm.mem_iff.mp (mem_of_value h), fun h => value_of_mem hkeys (hperm.mem_iff.mpr h)⟩

theorem perm_of_order {d members : List (String × DictValue)} (order : List ℕ)
    (hlength : d.length = order.length) (horder : order.Perm (List.range order.length))
    (hmembers : members.map some = order.map fun i => d[i]?) : d.Perm members := by
  have hrange : d.map some = (List.range d.length).map fun i => d[i]? := by
    refine List.ext_getElem (by simp) fun i hi hi' => ?_
    rw [List.length_map] at hi
    simp [hi]
  have hsome : (d.map some).Perm (members.map some) := by
    rw [hmembers, hrange, hlength]
    exact (horder.map _).symm
  simpa [List.filterMap_map, Function.comp_def] using hsome.filterMap id

variable (toUtf : Text → Text)

theorem holdsExactly_userLoginDict (r : CThostFtdcRspUserLoginField) :
    Dict.HoldsExactly (userLoginDict toUtf r) (loginMembers toUtf r) :=
  holdsExactly_of_perm (by simp [userLoginDict]) (perm_of_order
    [6, 2, 7, 9, 4, 12, 0, 1, 11, 8, 5, 3, 10] rfl (by decide) rfl)

theorem holdsExactly_userLogoutDict (r : CThostFtdcUserLogoutField) :
    Dict.HoldsExactly (userLogoutDict toUtf r) (logoutMembers toUtf r) :=
  holdsExactly_of_perm (by simp [userLogoutDict]) (.refl _)

theorem holdsExactly_errorDict (r : CThostFtdcRspInfoField) :
    Dict.HoldsExactly (errorDict toUtf r) (errorMembers toUtf r) :=
  holdsExactly_of_perm (by simp [errorDict]) (.refl _)

theorem holdsExactly_specificInstrumentDict (r : CThostFtdcSpecificInstrumentField) :
    Dict.HoldsExactly (specificInstrumentDict toUtf r) (instrumentMembers toUtf r) :=
  holdsExactly_of_perm (by simp [specificInstrumentDict]) (.refl _)

theorem holdsExactly_depthMarketDataDict (r : CThostFtdcDepthMarketDataField) :
    Dict.HoldsExactly (depthMarketDataDict toUtf r) (depthMembers toUtf r) :=
  holdsExactly_of_perm (by simp [depthMarketDataDict]) (perm_of_order
    [36, 21, 43, 11, 10, 18, 28, 9, 27, 14, 40, 23, 24, 29, 30, 39, 34, 31, 42, 1, 7, 41, 6,
      35, 38, 37, 12, 33, 2, 20, 13, 32, 15, 22, 3, 19, 8, 5, 25, 16, 0, 26, 4, 17]
    rfl (by decide) rfl)

theorem holdsExactly_forQuoteRspDict (r : CThostFtdcForQuoteRspField) :
    Dict.HoldsExactly (forQuoteRspDict toUtf r) (quoteMembers toUtf r) :=
  holdsExactly_of_perm (by simp [forQuoteRspDict]) (perm_of_order
    [5, 0, 2, 3, 4, 1] rfl (by decide) rfl)

end Builders

end Binding
end PyCtp
