import Mathlib
import Perfdb.Table
import Perfdb.Types

set_option autoImplicit false

namespace Perfdb

structure TraderStatsStore where
  stats : Table Address TraderStats

def TraderStats.zero (address : Address) : TraderStats where
  address := address
  totalPnl := 0
  totalVolume := 0
  totalFeesPaid := 0
  totalTrades := 0
  totalPositions := 0
  openPositions := 0
  winCount := 0
  lossCount := 0
  liquidationCount := 0
  bestTradePnl := 0
  worstTradePnl := 0
  avgLeverage := 0
  maxLeverage := 0
  totalFundingPaid := 0
  totalFundingReceived := 0
  firstTradeAt := none
  lastTradeAt := none

def TraderStats.addTrade (s : TraderStats) (volume pnl fee : FixedI128)
    (isWin isLiquidation : Bool) (timestamp : UInt64) : TraderStats :=
  { s with
    totalTrades := s.totalTrades + 1
    totalVolume := s.totalVolume + volume
    totalPnl := s.totalPnl + pnl
    totalFeesPaid := s.totalFeesPaid + fee
    winCount := if isWin then s.winCount + 1 else s.winCount
    lossCount := if !isWin && !isLiquidation then s.lossCount + 1 else s.lossCount
    liquidationCount := if isLiquidation then s.liquidationCount + 1 else s.liquidationCount
    bestTradePnl := if s.bestTradePnl < pnl then pnl else s.bestTradePnl
    worstTradePnl := if pnl < s.worstTradePnl then pnl else s.worstTradePnl
    firstTradeAt := if s.firstTradeAt.isNone then some timestamp else s.firstTradeAt
    lastTradeAt := some timestamp }

namespace TraderStatsStore

def new : TraderStatsStore := ⟨∅⟩

/-- Ensure a trader has a stats entry. Creates with zeroes if missing. -/
def ensure (store : TraderStatsStore) (address : Address) : TraderStatsStore :=
  ⟨store.stats.insertIfNew address (TraderStats.zero address)⟩

def get (store : TraderStatsStore) (address : Address) : Option TraderStats :=
  store.stats[address]?

/-- Update stats in place. Returns whether the trader exists. -/
def update (store : TraderStatsStore) (address : Address) (f : TraderStats → TraderStats) :
    Bool × TraderStatsStore :=
  (store.stats.contains address, ⟨store.stats.modify address f⟩)

/-- Count a trade. Returns whether the trader exists. -/
def incrementTrade (store : TraderStatsStore) (address : Address) (volume pnl fee : FixedI128)
    (isWin isLiquidation : Bool) (timestamp : UInt64) : Bool × TraderStatsStore :=
  store.update address fun s => s.addTrade volume pnl fee isWin isLiquidation timestamp

def incrementOpenPositions (store : TraderStatsStore) (address : Address) : TraderStatsStore :=
  (store.update address fun s => { s with
    totalPositions := s.totalPositions + 1
    openPositions := s.openPositions + 1 }).2

def decrementOpenPositions (store : TraderStatsStore) (address : Address) : TraderStatsStore :=
  (store.update address fun s => { s with
    openPositions := if s.openPositions = 0 then 0 else s.openPositions - 1 }).2

/-- All stats (for snapshots, leaderboard computation). -/
def all (order : Iteration) (store : TraderStatsStore) : List TraderStats := store.stats.all order

theorem update_update (store : TraderStatsStore) (address : Address)
    (first second : TraderStats → TraderStats) :
    ((store.update address first).2.update address second).2 =
      (store.update address fun s => second (first s)).2 :=
  congrArg mk (Table.modify_modify _ _ _ _)

theorem get_ensure_update (store : TraderStatsStore) (address other : Address)
    (f : TraderStats → TraderStats) : ((store.ensure address).update address f).2.get other =
      if address = other then some (f ((store.get address).getD (TraderStats.zero address)))
      else store.get other := by
  simp only [get, update, ensure, Table.getElem?_modify, Table.getElem?_insertIfNew]
  split <;> simp

end TraderStatsStore

/-- The keys of the daily stats are ordered. -/
instance : Std.TransOrd (Address × UInt32) := inferInstance

/-- In-memory daily stats store, by trader and date; a date is `YYYYMMDD` as a number. -/
structure DailyStatsStore where
  traderDaily : Table (Address × UInt32) DailyStats

namespace DailyStatsStore

def new : DailyStatsStore := ⟨∅⟩

def setTraderDaily (store : DailyStatsStore) (address : Address) (date : UInt32)
    (stats : DailyStats) : DailyStatsStore :=
  ⟨store.traderDaily.insert (address, date) stats⟩

def getTraderDaily (store : DailyStatsStore) (address : Address) (date : UInt32) :
    Option DailyStats :=
  store.traderDaily[(address, date)]?

def accumulateTrade (store : DailyStatsStore) (address : Address) (date : UInt32)
    (volume pnl fee : FixedI128) : DailyStatsStore :=
  ⟨store.traderDaily.alter (address, date) fun
    | some s => some { s with
        volume := s.volume + volume
        pnl := s.pnl + pnl
        trades := s.trades + 1
        fees := s.fees + fee }
    | none => some { date, pnl, volume, trades := 1, fees := fee }⟩

/-- All daily stats for a trader, sorted by date descending. -/
def traderDailyHistory (order : Iteration) (store : DailyStatsStore) (address : Address)
    (limit : Nat) : List DailyStats :=
  let entries := ((order.arrange store.traderDaily.toList).filter fun item =>
    item.1.1 = address).map Prod.snd
  (entries.insertionSort fun a b => b.date ≤ a.date).take limit

/-- Aggregate protocol-wide daily stats for a date: sums across all traders. -/
def protocolDaily (order : Iteration) (store : DailyStatsStore) (date : UInt32) : DailyStats :=
  (order.arrange store.traderDaily.toList).foldl
    (fun agg entry =>
      if entry.1.2 = date then
        let s := entry.2
        { agg with
          volume := agg.volume + s.volume
          pnl := agg.pnl + s.pnl
          trades := agg.trades + s.trades
          fees := agg.fees + s.fees }
      else agg)
    { date, pnl := 0, volume := 0, trades := 0, fees := 0 }

end DailyStatsStore

end Perfdb
