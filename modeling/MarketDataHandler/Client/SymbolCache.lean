import Mathlib.Logic.Function.Basic

/-!
# The symbol cache

`MarketState` and `SymbolCache` of `include/cache.h`.  The four update methods
differ in the fields they store only: each is `begin_write`, its stores in
source order, the time stamp, the increment of the update count and
`end_write`.  Prices are the 64-bit patterns of their doubles.

A method indexes the array with an unchecked symbol number; here it has no
result when the number is not below `maxSymbols`.
-/

namespace MarketDataHandler

/-- The fields of `MarketState` other than its version. -/
structure MarketData where
  bestBid : UInt64
  bestAsk : UInt64
  bidQuantity : UInt32
  askQuantity : UInt32
  lastTradedPrice : UInt64
  lastTradedQuantity : UInt32
  lastUpdateTime : UInt64
  updateCount : UInt64
  deriving DecidableEq, Repr

structure MarketState extends MarketData where
  version : UInt32
  deriving DecidableEq, Repr

/-- The member initialisers. -/
def MarketData.initial : MarketData where
  bestBid := 0
  bestAsk := 0
  bidQuantity := 0
  askQuantity := 0
  lastTradedPrice := 0
  lastTradedQuantity := 0
  lastUpdateTime := 0
  updateCount := 0

def MarketState.initial : MarketState where
  toMarketData := MarketData.initial
  version := 0

/-- A call of one of the update methods, without its symbol. -/
inductive CacheUpdate where
  | bid (price : UInt64) (qty : UInt32) (ts : UInt64)
  | ask (price : UInt64) (qty : UInt32) (ts : UInt64)
  | quote (bidPrice : UInt64) (bqty : UInt32) (askPrice : UInt64)
      (aqty : UInt32) (ts : UInt64)
  | trade (price : UInt64) (qty : UInt32) (ts : UInt64)
  deriving DecidableEq, Repr

/-! ## The accesses of an update -/

/-- One access of the writer to a field.  The increment of the update count
is a load into a register and a store from it. -/
inductive FieldAccess where
  | storeBestBid (value : UInt64)
  | storeBestAsk (value : UInt64)
  | storeBidQuantity (value : UInt32)
  | storeAskQuantity (value : UInt32)
  | storeLastTradedPrice (value : UInt64)
  | storeLastTradedQuantity (value : UInt32)
  | storeLastUpdateTime (value : UInt64)
  | loadUpdateCount
  | storeUpdateCount
  deriving DecidableEq, Repr

/-- The effect of an access on the register and the fields. -/
def FieldAccess.perform :
    FieldAccess → UInt64 × MarketData → UInt64 × MarketData
  | .storeBestBid value, (register, data) =>
      (register, { data with bestBid := value })
  | .storeBestAsk value, (register, data) =>
      (register, { data with bestAsk := value })
  | .storeBidQuantity value, (register, data) =>
      (register, { data with bidQuantity := value })
  | .storeAskQuantity value, (register, data) =>
      (register, { data with askQuantity := value })
  | .storeLastTradedPrice value, (register, data) =>
      (register, { data with lastTradedPrice := value })
  | .storeLastTradedQuantity value, (register, data) =>
      (register, { data with lastTradedQuantity := value })
  | .storeLastUpdateTime value, (register, data) =>
      (register, { data with lastUpdateTime := value })
  | .loadUpdateCount, (_, data) =>
      (data.updateCount, data)
  | .storeUpdateCount, (register, data) =>
      (register, { data with updateCount := register + 1 })

namespace CacheUpdate

/-- The part in which the four methods differ. -/
def stores : CacheUpdate → List FieldAccess
  | .bid price qty _ => [.storeBestBid price, .storeBidQuantity qty]
  | .ask price qty _ => [.storeBestAsk price, .storeAskQuantity qty]
  | .quote bidPrice bqty askPrice aqty _ =>
      [.storeBestBid bidPrice, .storeBidQuantity bqty,
        .storeBestAsk askPrice, .storeAskQuantity aqty]
  | .trade price qty _ =>
      [.storeLastTradedPrice price, .storeLastTradedQuantity qty]

def time : CacheUpdate → UInt64
  | .bid _ _ ts => ts
  | .ask _ _ ts => ts
  | .quote _ _ _ _ ts => ts
  | .trade _ _ ts => ts

/-- Everything between `begin_write` and `end_write`. -/
def accesses (update : CacheUpdate) : List FieldAccess :=
  update.stores ++
    [.storeLastUpdateTime update.time, .loadUpdateCount,
      .storeUpdateCount]

/-- The fields after an update that nobody interrupts. -/
def apply (data : MarketData) : CacheUpdate → MarketData
  | .bid price qty ts =>
      { data with
        bestBid := price
        bidQuantity := qty
        lastUpdateTime := ts
        updateCount := data.updateCount + 1 }
  | .ask price qty ts =>
      { data with
        bestAsk := price
        askQuantity := qty
        lastUpdateTime := ts
        updateCount := data.updateCount + 1 }
  | .quote bidPrice bqty askPrice aqty ts =>
      { data with
        bestBid := bidPrice
        bidQuantity := bqty
        bestAsk := askPrice
        askQuantity := aqty
        lastUpdateTime := ts
        updateCount := data.updateCount + 1 }
  | .trade price qty ts =>
      { data with
        lastTradedPrice := price
        lastTradedQuantity := qty
        lastUpdateTime := ts
        updateCount := data.updateCount + 1 }

/-- The single accesses add up to the update. -/
theorem perform_accesses
    (update : CacheUpdate) (register : UInt64) (data : MarketData) :
    (update.accesses.foldl
        (fun cells access => access.perform cells)
        (register, data)).2 =
      apply data update := by
  cases update <;> rfl

end CacheUpdate

/-! ## The cache -/

def maxSymbols : Nat := 500

structure SymbolCache where
  states : Fin maxSymbols → MarketState

namespace SymbolCache

def initial : SymbolCache where
  states := fun _ => MarketState.initial

def beginWrite (state : MarketState) : MarketState :=
  { state with version := state.version + 1 }

def endWrite (state : MarketState) : MarketState :=
  { state with version := state.version + 1 }

/-- The common body of the update methods. -/
def update (cache : SymbolCache) (sym : UInt16) (call : CacheUpdate) :
    Option SymbolCache :=
  if inside : sym.toNat < maxSymbols then
    let begun := beginWrite (cache.states ⟨sym.toNat, inside⟩)
    let written :=
      { begun with
        toMarketData := CacheUpdate.apply begun.toMarketData call }
    some
      { states :=
          Function.update cache.states ⟨sym.toNat, inside⟩
            (endWrite written) }
  else
    none

def updateBid (cache : SymbolCache) (sym : UInt16) (price : UInt64)
    (qty : UInt32) (ts : UInt64) : Option SymbolCache :=
  cache.update sym (.bid price qty ts)

def updateAsk (cache : SymbolCache) (sym : UInt16) (price : UInt64)
    (qty : UInt32) (ts : UInt64) : Option SymbolCache :=
  cache.update sym (.ask price qty ts)

def updateQuote (cache : SymbolCache) (sym : UInt16)
    (bid : UInt64) (bqty : UInt32) (ask : UInt64) (aqty : UInt32)
    (ts : UInt64) : Option SymbolCache :=
  cache.update sym (.quote bid bqty ask aqty ts)

def updateTrade (cache : SymbolCache) (sym : UInt16) (price : UInt64)
    (qty : UInt32) (ts : UInt64) : Option SymbolCache :=
  cache.update sym (.trade price qty ts)

end SymbolCache

end MarketDataHandler
