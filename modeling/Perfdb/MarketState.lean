import Mathlib
import Perfdb.Table
import Perfdb.Types

set_option autoImplicit false

namespace Perfdb

structure MarketInner where
  markPrice : Option FixedI128
  indexPrice : Option FixedI128
  fundingRatePerSecond : FixedI128
  fundingRate24h : FixedI128
  longOi : FixedI128
  shortOi : FixedI128
  enabled : Bool
  paused : Bool
  maxLeverage : Option FixedI128
  maintenanceMarginBps : Option UInt32
  volume24h : Option FixedI128
  trades24h : Option UInt32
  priceChange24h : Option FixedI128
  priceChangePct24h : Option FixedI128
  deriving DecidableEq

def MarketInner.default : MarketInner where
  markPrice := none
  indexPrice := none
  fundingRatePerSecond := 0
  fundingRate24h := 0
  longOi := 0
  shortOi := 0
  enabled := true
  paused := false
  maxLeverage := none
  maintenanceMarginBps := none
  volume24h := none
  trades24h := none
  priceChange24h := none
  priceChangePct24h := none

structure MarketSlot where
  /-- Latest price as f64 bits. -/
  latestPriceBits : UInt64
  lastUpdateNs : UInt64
  inner : MarketInner
  deriving DecidableEq

structure MarketSnapshot where
  marketId : MarketId
  latestPrice : F64
  lastUpdateNs : UInt64
  markPrice : Option FixedI128
  indexPrice : Option FixedI128
  fundingRatePerSecond : FixedI128
  fundingRate24h : FixedI128
  longOi : FixedI128
  shortOi : FixedI128
  enabled : Bool
  paused : Bool
  maxLeverage : Option FixedI128
  maintenanceMarginBps : Option UInt32
  volume24h : Option FixedI128
  trades24h : Option UInt32
  priceChange24h : Option FixedI128
  priceChangePct24h : Option FixedI128
  deriving DecidableEq

/-- Per-market real-time state. -/
structure MarketStateTable where
  slots : Vector MarketSlot marketCount

namespace MarketStateTable

def new : MarketStateTable := ⟨Vector.replicate marketCount ⟨0, 0, MarketInner.default⟩⟩

/-- Changes the slot of a market; an unknown market changes nothing. -/
def withSlot (table : MarketStateTable) (marketId : MarketId) (f : MarketSlot → MarketSlot) :
    MarketStateTable :=
  ⟨modifySlot table.slots marketId.toNat f⟩

def withInner (table : MarketStateTable) (marketId : MarketId) (f : MarketInner → MarketInner) :
    MarketStateTable :=
  table.withSlot marketId fun slot => { slot with inner := f slot.inner }

/-- Latest price for a market. Returns 0.0 if never updated. -/
def latestPrice (table : MarketStateTable) (marketId : MarketId) : F64 :=
  match table.slots[marketId.toNat]? with
  | some slot => ⟨slot.latestPriceBits⟩
  | none => F64.zero

def lastUpdateNs (table : MarketStateTable) (marketId : MarketId) : UInt64 :=
  match table.slots[marketId.toNat]? with
  | some slot => slot.lastUpdateNs
  | none => 0

/-- Update the latest price. Called on every price tick. -/
def setPrice (table : MarketStateTable) (marketId : MarketId) (price : F64)
    (timestampNs : UInt64) : MarketStateTable :=
  table.withSlot marketId fun slot => { slot with
    latestPriceBits := price.bits
    lastUpdateNs := timestampNs }

def setFundingRate (table : MarketStateTable) (marketId : MarketId)
    (ratePerSecond rate24h : FixedI128) : MarketStateTable :=
  table.withInner marketId fun inner => { inner with
    fundingRatePerSecond := ratePerSecond
    fundingRate24h := rate24h }

def fundingRate (table : MarketStateTable) (marketId : MarketId) : FixedI128 :=
  match table.slots[marketId.toNat]? with
  | some slot => slot.inner.fundingRatePerSecond
  | none => 0

def fundingRate24h (table : MarketStateTable) (marketId : MarketId) : FixedI128 :=
  match table.slots[marketId.toNat]? with
  | some slot => slot.inner.fundingRate24h
  | none => 0

def setOpenInterest (table : MarketStateTable) (marketId : MarketId)
    (longOi shortOi : FixedI128) : MarketStateTable :=
  table.withInner marketId fun inner => { inner with longOi := longOi, shortOi := shortOi }

def addLongOi (table : MarketStateTable) (marketId : MarketId) (delta : FixedI128) :
    MarketStateTable :=
  table.withInner marketId fun inner => { inner with longOi := inner.longOi + delta }

def addShortOi (table : MarketStateTable) (marketId : MarketId) (delta : FixedI128) :
    MarketStateTable :=
  table.withInner marketId fun inner => { inner with shortOi := inner.shortOi + delta }

def openInterest (table : MarketStateTable) (marketId : MarketId) : FixedI128 × FixedI128 :=
  match table.slots[marketId.toNat]? with
  | some slot => (slot.inner.longOi, slot.inner.shortOi)
  | none => (0, 0)

def setOraclePrices (table : MarketStateTable) (marketId : MarketId)
    (mark index : Option FixedI128) : MarketStateTable :=
  table.withInner marketId fun inner => { inner with
    markPrice := if mark.isSome then mark else inner.markPrice
    indexPrice := if index.isSome then index else inner.indexPrice }

def setEnabled (table : MarketStateTable) (marketId : MarketId) (enabled : Bool) :
    MarketStateTable :=
  table.withInner marketId fun inner => { inner with enabled := enabled }

def setPaused (table : MarketStateTable) (marketId : MarketId) (paused : Bool) :
    MarketStateTable :=
  table.withInner marketId fun inner => { inner with paused := paused }

def isPaused (table : MarketStateTable) (marketId : MarketId) : Bool :=
  ((table.slots[marketId.toNat]?).map fun slot => slot.inner.paused).getD false

def setConfig (table : MarketStateTable) (marketId : MarketId) (maxLeverage : Option FixedI128)
    (maintenanceMarginBps : Option UInt32) : MarketStateTable :=
  table.withInner marketId fun inner => { inner with
    maxLeverage := maxLeverage
    maintenanceMarginBps := maintenanceMarginBps }

def set24hStats (table : MarketStateTable) (marketId : MarketId) (volume : Option FixedI128)
    (trades : Option UInt32) (priceChange priceChangePct : Option FixedI128) :
    MarketStateTable :=
  table.withInner marketId fun inner => { inner with
    volume24h := volume
    trades24h := trades
    priceChange24h := priceChange
    priceChangePct24h := priceChangePct }

/-- Full read-only snapshot of a market's state. -/
def snapshot (table : MarketStateTable) (marketId : MarketId) : Option MarketSnapshot :=
  (table.slots[marketId.toNat]?).map fun slot => {
    marketId
    latestPrice := ⟨slot.latestPriceBits⟩
    lastUpdateNs := slot.lastUpdateNs
    markPrice := slot.inner.markPrice
    indexPrice := slot.inner.indexPrice
    fundingRatePerSecond := slot.inner.fundingRatePerSecond
    fundingRate24h := slot.inner.fundingRate24h
    longOi := slot.inner.longOi
    shortOi := slot.inner.shortOi
    enabled := slot.inner.enabled
    paused := slot.inner.paused
    maxLeverage := slot.inner.maxLeverage
    maintenanceMarginBps := slot.inner.maintenanceMarginBps
    volume24h := slot.inner.volume24h
    trades24h := slot.inner.trades24h
    priceChange24h := slot.inner.priceChange24h
    priceChangePct24h := slot.inner.priceChangePct24h }

theorem ext_slots {left right : MarketStateTable} (same : left.slots = right.slots) :
    left = right := by
  cases left
  exact congrArg mk same

end MarketStateTable

end Perfdb
