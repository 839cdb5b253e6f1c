import PyCtp.TickRows

/-!
# The columns of a tick file

A column stands for a member of the market data record and has a title that names it. The
header lists the titles and a row the members, both in the order of the record, five
levels of the order book with four columns each among them.
-/
namespace PyCtp
namespace MdApi

inductive Side
  | bid | ask
  deriving DecidableEq

inductive Quantity
  | price | volume
  deriving DecidableEq

inductive Column
  | tradingDay | instrumentID | exchangeID | exchangeInstID
  | lastPrice | preSettlementPrice | preClosePrice | preOpenInterest
  | openPrice | highestPrice | lowestPrice
  | volume | turnover | openInterest
  | closePrice | settlementPrice | upperLimitPrice | lowerLimitPrice | preDelta | currDelta
  | updateTime | updateMillisec
  | book (side : Side) (quantity : Quantity) (level : Fin 5)
  | averagePrice | actionDay
  deriving DecidableEq

inductive Value
  | text (s : Text)
  | int (i : ℤ)
  | double (d : Double)
  deriving DecidableEq

/-- The marker of a missing number becomes zero. -/
def Value.dblmxtzero : Value → Value
  | .double d => .double d.dblmxtzero
  | v => v

def Value.print : Value → Text
  | .text s => s
  | .int i => printInt i
  | .double d => d.print

namespace Column

/-- 申买 and 申卖. -/
def sideTitle : Side → Text
  | .bid => "\xc9\xea\xc2\xf2".toList
  | .ask => "\xc9\xea\xc2\xf4".toList

/-- 价 and 量. -/
def quantityTitle : Quantity → Text
  | .price => "\xbc\xdb".toList
  | .volume => "\xc1\xbf".toList

/-- 一 to 五. -/
def levelTitle : Fin 5 → Text
  | 0 => "\xd2\xbb".toList
  | 1 => "\xb6\xfe".toList
  | 2 => "\xc8\xfd".toList
  | 3 => "\xcb\xc4".toList
  | 4 => "\xce\xe5".toList

def title : Column → Text
  | .tradingDay => "\xbd\xbb\xd2\xd7\xc8\xd5".toList
  | .instrumentID => "\xba\xcf\xd4\xbc\xb4\xfa\xc2\xeb".toList
  | .exchangeID => "\xbd\xbb\xd2\xd7\xcb\xf9\xb4\xfa\xc2\xeb".toList
  | .exchangeInstID =>
    "\xba\xcf\xd4\xbc\xd4\xda\xbd\xbb\xd2\xd7\xcb\xf9\xb5\xc4\xb4\xfa\xc2\xeb".toList
  | .lastPrice => "\xd7\xee\xd0\xc2\xbc\xdb".toList
  | .preSettlementPrice => "\xc9\xcf\xb4\xce\xbd\xe1\xcb\xe3\xbc\xdb".toList
  | .preClosePrice => "\xd7\xf2\xca\xd5\xc5\xcc".toList
  | .preOpenInterest => "\xd7\xf2\xb3\xd6\xb2\xd6\xc1\xbf".toList
  | .openPrice => "\xbd\xf1\xbf\xaa\xc5\xcc".toList
  | .highestPrice => "\xd7\xee\xb8\xdf\xbc\xdb".toList
  | .lowestPrice => "\xd7\xee\xb5\xcd\xbc\xdb".toList
  | .volume => "\xca\xfd\xc1\xbf".toList
  | .turnover => "\xb3\xc9\xbd\xbb\xbd\xf0\xb6\xee".toList
  | .openInterest => "\xb3\xd6\xb2\xd6\xc1\xbf".toList
  | .closePrice => "\xbd\xf1\xca\xd5\xc5\xcc".toList
  | .settlementPrice => "\xb1\xbe\xb4\xce\xbd\xe1\xcb\xe3\xbc\xdb".toList
  | .upperLimitPrice => "\xd5\xc7\xcd\xa3\xb0\xe5\xbc\xdb".toList
  | .lowerLimitPrice => "\xb5\xf8\xcd\xa3\xb0\xe5\xbc\xdb".toList
  | .preDelta => "\xd7\xf2\xd0\xe9\xca\xb5\xb6\xc8".toList
  | .currDelta => "\xbd\xf1\xd0\xe9\xca\xb5\xb6\xc8".toList
  | .updateTime => "\xd7\xee\xba\xf3\xd0\xde\xb8\xc4\xca\xb1\xbc\xe4".toList
  | .updateMillisec => "\xd7\xee\xba\xf3\xd0\xde\xb8\xc4\xba\xc1\xc3\xeb".toList
  | .book side quantity level => sideTitle side ++ quantityTitle quantity ++ levelTitle level
  | .averagePrice => "\xb5\xb1\xc8\xd5\xbe\xf9\xbc\xdb".toList
  | .actionDay => "\xd2\xb5\xce\xf1\xc8\xd5\xc6\xda".toList

def bookPrice (md : CThostFtdcDepthMarketDataField) : Side → Fin 5 → Double
  | .bid, 0 => md.bidPrice1
  | .bid, 1 => md.bidPrice2
  | .bid, 2 => md.bidPrice3
  | .bid, 3 => md.bidPrice4
  | .bid, 4 => md.bidPrice5
  | .ask, 0 => md.askPrice1
  | .ask, 1 => md.askPrice2
  | .ask, 2 => md.askPrice3
  | .ask, 3 => md.askPrice4
  | .ask, 4 => md.askPrice5

def bookVolume (md : CThostFtdcDepthMarketDataField) : Side → Fin 5 → ℤ
  | .bid, 0 => md.bidVolume1
  | .bid, 1 => md.bidVolume2
  | .bid, 2 => md.bidVolume3
  | .bid, 3 => md.bidVolume4
  | .bid, 4 => md.bidVolume5
  | .ask, 0 => md.askVolume1
  | .ask, 1 => md.askVolume2
  | .ask, 2 => md.askVolume3
  | .ask, 3 => md.askVolume4
  | .ask, 4 => md.askVolume5

def field (md : CThostFtdcDepthMarketDataField) : Column → Value
  | .tradingDay => .text md.tradingDay
  | .instrumentID => .text md.instrumentID
  | .exchangeID => .text md.exchangeID
  | .exchangeInstID => .text md.exchangeInstID
  | .lastPrice => .double md.lastPrice
  | .preSettlementPrice => .double md.preSettlementPrice
  | .preClosePrice => .double md.preClosePrice
  | .preOpenInterest => .double md.preOpenInterest
  | .openPrice => .double md.openPrice
  | .highestPrice => .double md.highestPrice
  | .lowestPrice => .double md.lowestPrice
  | .volume => .int md.volume
  | .turnover => .double md.turnover
  | .openInterest => .double md.openInterest
  | .closePrice => .double md.closePrice
  | .settlementPrice => .double md.settlementPrice
  | .upperLimitPrice => .double md.upperLimitPrice
  | .lowerLimitPrice => .double md.lowerLimitPrice
  | .preDelta => .double md.preDelta
  | .currDelta => .double md.currDelta
  | .updateTime => .text md.updateTime
  | .updateMillisec => .int md.updateMillisec
  | .book side .price level => .double (bookPrice md side level)
  | .book side .volume level => .int (bookVolume md side level)
  | .averagePrice => .double md.averagePrice
  | .actionDay => .text md.actionDay

/-- The columns that `insert_tick` writes without `DBLMXTZERO`. -/
def raw : Column → Bool
  | .preOpenInterest | .turnover | .openInterest => true
  | _ => false

def cell (md : CThostFtdcDepthMarketDataField) (c : Column) : Text :=
  (if c.raw then c.field md else (c.field md).dblmxtzero).print

def bookLevel (level : Fin 5) : List Column :=
  [book .bid .price level, book .bid .volume level, book .ask .price level,
    book .ask .volume level]

/-- The columns in the order of the record. -/
def all : List Column :=
  [tradingDay, instrumentID, exchangeID, exchangeInstID, lastPrice, preSettlementPrice,
    preClosePrice, preOpenInterest, openPrice, highestPrice, lowestPrice, volume, turnover,
    openInterest, closePrice, settlementPrice, upperLimitPrice, lowerLimitPrice, preDelta,
    currDelta, updateTime, updateMillisec] ++
  ((List.finRange 5).flatMap bookLevel ++ [averagePrice, actionDay])

theorem mem_all (c : Column) : c ∈ all := by
  cases c with
  | book side quantity level =>
    refine List.mem_append_right _ (List.mem_append_left _ ?_)
    refine List.mem_flatMap.mpr ⟨level, List.mem_finRange level, ?_⟩
    cases side <;> cases quantity <;> simp [bookLevel]
  | _ => decide

def named (title : Text) : Option Column := all.find? fun c => c.title = title

theorem named_title : ∀ c ∈ all, named c.title = some c := by decide +kernel

end Column

theorem headCells_eq : headCells = Column.all.map Column.title := by decide +kernel

theorem tickCells_eq (md : CThostFtdcDepthMarketDataField) :
    tickCells md = Column.all.map (Column.cell md) := by
  rw [Column.all, List.map_append]
  rfl

/-- No text member of the record contains a comma or a newline. -/
structure CellTexts (md : CThostFtdcDepthMarketDataField) : Prop where
  tradingDay : OneCell md.tradingDay
  instrumentID : OneCell md.instrumentID
  exchangeID : OneCell md.exchangeID
  exchangeInstID : OneCell md.exchangeInstID
  updateTime : OneCell md.updateTime
  actionDay : OneCell md.actionDay

theorem CellTexts.oneCell {md : CThostFtdcDepthMarketDataField} (h : CellTexts md) :
    ∀ c ∈ tickCells md, OneCell c := by
  simp only [tickCells, List.forall_mem_cons]
  simp [h.tradingDay, h.instrumentID, h.exchangeID, h.exchangeInstID, h.updateTime,
    h.actionDay, Double.oneCell_print, oneCell_printInt]

theorem splitOn_headLine : headLine.splitOn ',' = headCells := by
  apply List.splitOn_intercalate
  · exact fun c hc => (headCells_oneCell c hc).1
  · exact List.cons_ne_nil _ _

/-- A row splits into the cells of the record and an empty one. -/
theorem splitOn_tickLine {md : CThostFtdcDepthMarketDataField} (h : CellTexts md) :
    (tickLine md).splitOn ',' = tickCells md ++ [[]] := by
  have hcells : ∀ c ∈ tickCells md, ',' ∉ c := fun c hc => (h.oneCell c hc).1
  have hsplit := splitOn_terminated_append hcells (List.not_mem_nil (a := ','))
  rwa [List.append_nil] at hsplit

/-- A row has as many cells as the header, and each is the rendering of the member that the
title above it names. -/
def LinesUp (md : CThostFtdcDepthMarketDataField) : Prop :=
  ((tickLine md).splitOn ',').length = (headLine.splitOn ',').length ∧
    ∀ (i : ℕ) (title : Text), (headLine.splitOn ',')[i]? = some title →
      ∃ c, Column.named title = some c ∧ ((tickLine md).splitOn ',')[i]? = some (c.cell md)

/-- Every title stands above the cell it names, and every row has one cell too many. -/
theorem row_exceeds_header (md : CThostFtdcDepthMarketDataField) (h : CellTexts md) :
    ¬LinesUp md ∧
      ((tickLine md).splitOn ',').length = (headLine.splitOn ',').length + 1 ∧
      ∀ (i : ℕ) (title : Text), (headLine.splitOn ',')[i]? = some title →
        ∃ c, Column.named title = some c ∧ ((tickLine md).splitOn ',')[i]? = some (c.cell md) := by
  have hlen : ((tickLine md).splitOn ',').length = (headLine.splitOn ',').length + 1 := by
    rw [splitOn_tickLine h, splitOn_headLine, headCells_eq, tickCells_eq]
    simp
  refine ⟨fun hup => ?_, hlen, fun i title hi => ?_⟩
  · have hsame := hup.1
    omega
  · rw [splitOn_headLine, headCells_eq, List.getElem?_map] at hi
    obtain ⟨c, hc, rfl⟩ := Option.map_eq_some_iff.mp hi
    refine ⟨c, Column.named_title c (Column.mem_all c), ?_⟩
    have hlt : i < (tickCells md).length := by
      rw [tickCells_eq, List.length_map]
      exact (List.getElem?_eq_some_iff.mp hc).1
    rw [splitOn_tickLine h, List.getElem?_append_left hlt, tickCells_eq, List.getElem?_map, hc]
    rfl

def copperTick : CThostFtdcDepthMarketDataField :=
  { CThostFtdcDepthMarketDataField.zeroFilled with
    tradingDay := "20170630".toList
    instrumentID := "cu1709".toList
    exchangeID := "SHFE".toList
    updateTime := "09:00:00".toList }

theorem cellTexts_copperTick : CellTexts copperTick := by
  constructor <;> exact ⟨by decide, by decide⟩

theorem row_exceeds_header_cu1709 :
    ((tickLine copperTick).splitOn ',').length = (headLine.splitOn ',').length + 1 :=
  (row_exceeds_header copperTick cellTexts_copperTick).2.1

theorem not_linesUp_cu1709 : ¬LinesUp copperTick := by
  rintro ⟨hlen, -⟩
  rw [splitOn_tickLine cellTexts_copperTick, splitOn_headLine] at hlen
  exact absurd hlen (by decide)

end MdApi
end PyCtp
