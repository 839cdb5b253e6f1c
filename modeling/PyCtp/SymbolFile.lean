import PyCtp.Config
import PyCtp.WhileLoops

/-!
# The contract list file

`tdapi` deletes the file when it asks for all contracts and appends one line for each
answer; `MdApi::subscribe` reads it with a loop that tests `eof()` before each line, and
asks for market data of the names it found.
-/
namespace PyCtp
open TextScanning WhileLoops

structure CThostFtdcInstrumentField where
  instrumentID : Text
  instrumentName : Text
  exchangeID : Text
  expireDate : Text
  deriving DecidableEq, Repr

namespace Tdapi

/-- What `OnRspQryInstrument` writes before the end of the line. -/
def instrumentLine (p : CThostFtdcInstrumentField) : Text :=
  p.instrumentID ++ ",".toList ++ p.instrumentName ++ ",".toList ++
    p.exchangeID ++ ",".toList ++ p.expireDate ++ ",".toList

/-- `OnRspQryInstrument`: append a line to the symbol file if it opens. -/
def onRspQryInstrument (opens : Bool) (p : CThostFtdcInstrumentField) (symbolFile : Option Text) :
    Option Text :=
  if opens then some (symbolFile.getD [] ++ (instrumentLine p ++ "\n".toList)) else symbolFile

/-- `query_all_contract` on the symbol file: it is removed before the request is sent. -/
def queryAllContract (_symbolFile : Option Text) : Option Text := none

def contractFile (symbolFile : Option Text) (ps : List CThostFtdcInstrumentField) : Option Text :=
  ps.foldl (fun f p => onRspQryInstrument true p f) (queryAllContract symbolFile)

end Tdapi

namespace MdApi

def bufferSize : ℕ := 128

/-- The stream and the names collected so far in `subscribe`. -/
structure SymbolReader where
  symbolfile : IStream Char
  contractNameList : List Text
  deriving DecidableEq, Repr

/-- One round of the loop `while (!symbolfile.eof())`. -/
def readSymbol (r : SymbolReader) : Option SymbolReader :=
  if r.symbolfile.eofbit then none
  else
    let next := r.symbolfile.getlineBuf '\n' bufferSize
    let line := Config.cStr next.2
    some ⟨next.1, r.contractNameList ++ [cut ",".toList line]⟩

/-- The reader before the loop; a file that does not open leaves a failed stream. -/
def openSymbols (symbolFile : Option Text) : SymbolReader :=
  match symbolFile with
  | none => ⟨.unopened, []⟩
  | some s => ⟨.opened s, []⟩

/-- `subscribe` gets through its loop and requests the given names. -/
def Subscribes (symbolFile : Option Text) (names : List Text) : Prop :=
  ∃ r, Ends readSymbol (openSymbols symbolFile) r ∧ r.contractNameList = names

/-- `subscribe` stays in its loop and never sends its request. -/
def NeverSubscribes (symbolFile : Option Text) : Prop :=
  Diverges readSymbol (openSymbols symbolFile)

end MdApi
end PyCtp
