import PyCtp.CtpRecords

/-!
# The rows of a tick file

`insert_head` and `insert_tick` as text: cells and commas up to the end of the line. A row
ends with one more comma, so it is never the header line.
-/
namespace PyCtp
namespace MdApi

/-- The column titles, in the encoding of the source file: 交易日, 合约代码, 交易所代码,
合约在交易所的代码, 最新价, 上次结算价, 昨收盘, 昨持仓量, 今开盘, 最高价, 最低价, 数量,
成交金额, 持仓量, 今收盘, 本次结算价, 涨停板价, 跌停板价, 昨虚实度, 今虚实度, 最后修改时间,
最后修改毫秒, then 申买价, 申买量, 申卖价, 申卖量 for each of 一 to 五, 当日均价, 业务日期. -/
def headCells : List Text :=
  ["\xbd\xbb\xd2\xd7\xc8\xd5", "\xba\xcf\xd4\xbc\xb4\xfa\xc2\xeb",
   "\xbd\xbb\xd2\xd7\xcb\xf9\xb4\xfa\xc2\xeb",
   "\xba\xcf\xd4\xbc\xd4\xda\xbd\xbb\xd2\xd7\xcb\xf9\xb5\xc4\xb4\xfa\xc2\xeb",
   "\xd7\xee\xd0\xc2\xbc\xdb", "\xc9\xcf\xb4\xce\xbd\xe1\xcb\xe3\xbc\xdb",
   "\xd7\xf2\xca\xd5\xc5\xcc", "\xd7\xf2\xb3\xd6\xb2\xd6\xc1\xbf", "\xbd\xf1\xbf\xaa\xc5\xcc",
   "\xd7\xee\xb8\xdf\xbc\xdb", "\xd7\xee\xb5\xcd\xbc\xdb", "\xca\xfd\xc1\xbf",
   "\xb3\xc9\xbd\xbb\xbd\xf0\xb6\xee", "\xb3\xd6\xb2\xd6\xc1\xbf", "\xbd\xf1\xca\xd5\xc5\xcc",
   "\xb1\xbe\xb4\xce\xbd\xe1\xcb\xe3\xbc\xdb", "\xd5\xc7\xcd\xa3\xb0\xe5\xbc\xdb",
   "\xb5\xf8\xcd\xa3\xb0\xe5\xbc\xdb", "\xd7\xf2\xd0\xe9\xca\xb5\xb6\xc8",
   "\xbd\xf1\xd0\xe9\xca\xb5\xb6\xc8", "\xd7\xee\xba\xf3\xd0\xde\xb8\xc4\xca\xb1\xbc\xe4",
   "\xd7\xee\xba\xf3\xd0\xde\xb8\xc4\xba\xc1\xc3\xeb", "\xc9\xea\xc2\xf2\xbc\xdb\xd2\xbb",
   "\xc9\xea\xc2\xf2\xc1\xbf\xd2\xbb", "\xc9\xea\xc2\xf4\xbc\xdb\xd2\xbb",
   "\xc9\xea\xc2\xf4\xc1\xbf\xd2\xbb", "\xc9\xea\xc2\xf2\xbc\xdb\xb6\xfe",
   "\xc9\xea\xc2\xf2\xc1\xbf\xb6\xfe", "\xc9\xea\xc2\xf4\xbc\xdb\xb6\xfe",
   "\xc9\xea\xc2\xf4\xc1\xbf\xb6\xfe", "\xc9\xea\xc2\xf2\xbc\xdb\xc8\xfd",
   "\xc9\xea\xc2\xf2\xc1\xbf\xc8\xfd", "\xc9\xea\xc2\xf4\xbc\xdb\xc8\xfd",
   "\xc9\xea\xc2\xf4\xc1\xbf\xc8\xfd", "\xc9\xea\xc2\xf2\xbc\xdb\xcb\xc4",
   "\xc9\xea\xc2\xf2\xc1\xbf\xcb\xc4", "\xc9\xea\xc2\xf4\xbc\xdb\xcb\xc4",
   "\xc9\xea\xc2\xf4\xc1\xbf\xcb\xc4", "\xc9\xea\xc2\xf2\xbc\xdb\xce\xe5",
   "\xc9\xea\xc2\xf2\xc1\xbf\xce\xe5", "\xc9\xea\xc2\xf4\xbc\xdb\xce\xe5",
   "\xc9\xea\xc2\xf4\xc1\xbf\xce\xe5", "\xb5\xb1\xc8\xd5\xbe\xf9\xbc\xdb",
   "\xd2\xb5\xce\xf1\xc8\xd5\xc6\xda"].map String.toList

/-- The line `insert_head` writes, without its end. -/
def headLine : Text := List.intercalate ",".toList headCells

def insertHead : Text := headLine ++ "\n".toList

def tickCells (md : CThostFtdcDepthMarketDataField) : List Text :=
  [ md.tradingDay,
    md.instrumentID,
    md.exchangeID,
    md.exchangeInstID,
    md.lastPrice.dblmxtzero.print,
    md.preSettlementPrice.dblmxtzero.print,
    md.preClosePrice.dblmxtzero.print,
    md.preOpenInterest.print,
    md.openPrice.dblmxtzero.print,
    md.highestPrice.dblmxtzero.print,
    md.lowestPrice.dblmxtzero.print,
    printInt md.volume,
    md.turnover.print,
    md.openInterest.print,
    md.closePrice.dblmxtzero.print,
    md.settlementPrice.dblmxtzero.print,
    md.upperLimitPrice.dblmxtzero.print,
    md.lowerLimitPrice.dblmxtzero.print,
    md.preDelta.dblmxtzero.print,
    md.currDelta.dblmxtzero.print,
    md.updateTime,
    printInt md.updateMillisec,
    md.bidPrice1.dblmxtzero.print,
    printInt md.bidVolume1,
    md.askPrice1.dblmxtzero.print,
    printInt md.askVolume1,
    md.bidPrice2.dblmxtzero.print,
    printInt md.bidVolume2,
    md.askPrice2.dblmxtzero.print,
    printInt md.askVolume2,
    md.bidPrice3.dblmxtzero.print,
    printInt md.bidVolume3,
    md.askPrice3.dblmxtzero.print,
    printInt md.askVolume3,
    md.bidPrice4.dblmxtzero.print,
    printInt md.bidVolume4,
    md.askPrice4.dblmxtzero.print,
    printInt md.askVolume4,
    md.bidPrice5.dblmxtzero.print,
    printInt md.bidVolume5,
    md.askPrice5.dblmxtzero.print,
    printInt md.askVolume5,
    md.averagePrice.dblmxtzero.print,
    md.actionDay ]

/-- The line `insert_tick` writes, without its end. -/
def tickLine (md : CThostFtdcDepthMarketDataField) : Text :=
  (tickCells md).flatMap (· ++ ",".toList)

def insertTick (md : CThostFtdcDepthMarketDataField) : Text := tickLine md ++ "\n".toList

/-- No text field of the record contains a newline. -/
structure OneLine (md : CThostFtdcDepthMarketDataField) : Prop where
  tradingDay : '\n' ∉ md.tradingDay
  instrumentID : '\n' ∉ md.instrumentID
  exchangeID : '\n' ∉ md.exchangeID
  exchangeInstID : '\n' ∉ md.exchangeInstID
  updateTime : '\n' ∉ md.updateTime
  actionDay : '\n' ∉ md.actionDay

theorem OneLine.tickLine {md : CThostFtdcDepthMarketDataField} (h : OneLine md) :
    '\n' ∉ tickLine md := by
  have hcell : ∀ c ∈ tickCells md, '\n' ∉ c := by
    simp only [tickCells, List.forall_mem_cons]
    simp [h.tradingDay, h.instrumentID, h.exchangeID, h.exchangeInstID, h.updateTime,
      h.actionDay, (Double.oneCell_print _).2, (oneCell_printInt _).2]
  intro hmem
  obtain ⟨c, hc, hn⟩ := List.mem_flatMap.mp hmem
  rcases List.mem_append.mp hn with hn | hn
  · exact hcell c hc hn
  · simp at hn

theorem headCells_oneCell : ∀ c ∈ headCells, OneCell c := by decide +kernel

theorem headLine_oneLine : '\n' ∉ headLine := by
  apply TextScanning.not_mem_intercalate
  · decide
  · exact fun c hc => (headCells_oneCell c hc).2

theorem getLast_ended {cells : List Text} (h : cells ≠ []) :
    (cells.flatMap (· ++ ",".toList)).getLast? = some ',' := by
  obtain ⟨init, last, rfl⟩ := (List.eq_nil_or_concat' cells).resolve_left h
  rw [List.flatMap_append, List.flatMap_singleton, ← List.append_assoc]
  exact List.getLast?_concat

theorem tickLine_ne_headLine (md : CThostFtdcDepthMarketDataField) : tickLine md ≠ headLine := by
  intro h
  have hhead : headLine.getLast? = some '\xda' := by decide +kernel
  have hrow : (tickLine md).getLast? = some ',' := getLast_ended (List.cons_ne_nil _ _)
  rw [h, hhead] at hrow
  exact absurd hrow (by decide)

end MdApi
end PyCtp
