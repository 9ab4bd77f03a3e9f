import Mathlib
import Perfdb.Table
import Perfdb.Types

set_option autoImplicit false

namespace Perfdb

/-- Dual-partitioned append-only event log. -/
structure EventStore where
  byMarket : Table MarketId (List IndexedEvent)
  byTrader : Table Address (List IndexedEvent)
  totalCount : UInt64

namespace EventStore

def new : EventStore := ⟨∅, ∅, 0⟩

/-- Adds an event to the partition of a key; without a key it goes to none. -/
def push {κ : Type} [Ord κ] [Std.TransOrd κ] (partitions : Table κ (List IndexedEvent))
    (key : Option κ) (event : IndexedEvent) : Table κ (List IndexedEvent) :=
  match key with
  | some key => partitions.alter key fun events => some (events.getD [] ++ [event])
  | none => partitions

/-- Append an event to both market and trader partitions. -/
def append (store : EventStore) (event : IndexedEvent) (marketId : Option MarketId)
    (traderAddress : Option Address) : EventStore where
  byMarket := push store.byMarket marketId event
  byTrader := push store.byTrader traderAddress event
  totalCount := store.totalCount + 1

/-- Block bounds of a query: `[from, to)`, each of them optional. -/
def inBlockRange (fromBlock toBlock : Option UInt64) (event : IndexedEvent) : Bool :=
  (match fromBlock with
    | some first => decide (first ≤ event.blockNumber)
    | none => true) &&
  match toBlock with
    | some bound => decide (event.blockNumber < bound)
    | none => true

def filterByBlockRange (events : List IndexedEvent) (fromBlock toBlock : Option UInt64) :
    List IndexedEvent :=
  events.filter (inBlockRange fromBlock toBlock)

/-- Query the events of a partition, optionally filtered by block range. -/
def query {κ : Type} [Ord κ] [Std.TransOrd κ] (partitions : Table κ (List IndexedEvent)) (key : κ)
    (fromBlock toBlock : Option UInt64) : List IndexedEvent :=
  match partitions[key]? with
  | some events => filterByBlockRange events fromBlock toBlock
  | none => []

/-- Latest events of a partition, most recent first. -/
def latest {κ : Type} [Ord κ] [Std.TransOrd κ] (partitions : Table κ (List IndexedEvent)) (key : κ)
    (count : Nat) : List IndexedEvent :=
  match partitions[key]? with
  | some events => (events.drop (events.length - count)).reverse
  | none => []

/-- Query events for a market, optionally filtered by block range. -/
def eventsByMarket (store : EventStore) (marketId : MarketId) (fromBlock toBlock : Option UInt64) :
    List IndexedEvent :=
  query store.byMarket marketId fromBlock toBlock

/-- Query events for a trader address, optionally filtered by block range. -/
def eventsByTrader (store : EventStore) (trader : Address) (fromBlock toBlock : Option UInt64) :
    List IndexedEvent :=
  query store.byTrader trader fromBlock toBlock

def latestByMarket (store : EventStore) (marketId : MarketId) (count : Nat) : List IndexedEvent :=
  latest store.byMarket marketId count

def latestByTrader (store : EventStore) (trader : Address) (count : Nat) : List IndexedEvent :=
  latest store.byTrader trader count

end EventStore

end Perfdb
