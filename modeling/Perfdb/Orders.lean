import Mathlib
import Perfdb.Inverted
import Perfdb.Types

set_option autoImplicit false

namespace Perfdb

abbrev BookSide := Table FixedI128 (List Hash)

namespace BookSide

def add (side : BookSide) (price : FixedI128) (orderId : Hash) : BookSide :=
  side.alter price fun ids => some (ids.getD [] ++ [orderId])

/-- A level is dropped with its last order. -/
def remove (side : BookSide) (price : FixedI128) (orderId : Hash) : BookSide :=
  side.alter price fun ids => ids.bind fun ids =>
    let kept := ids.filter (· ≠ orderId)
    if kept.isEmpty then none else some kept

end BookSide

/-- Per-market orderbook: bids and asks by price. -/
structure Orderbook where
  bids : BookSide
  asks : BookSide

namespace Orderbook

def new : Orderbook := ⟨∅, ∅⟩

def addBid (book : Orderbook) (price : FixedI128) (orderId : Hash) : Orderbook :=
  { book with bids := book.bids.add price orderId }

def addAsk (book : Orderbook) (price : FixedI128) (orderId : Hash) : Orderbook :=
  { book with asks := book.asks.add price orderId }

def removeBid (book : Orderbook) (price : FixedI128) (orderId : Hash) : Orderbook :=
  { book with bids := book.bids.remove price orderId }

def removeAsk (book : Orderbook) (price : FixedI128) (orderId : Hash) : Orderbook :=
  { book with asks := book.asks.remove price orderId }

end Orderbook

/-- In-memory order table with a user index and per-market orderbooks. -/
structure OrderTable where
  orders : Table Hash Order
  byUser : Table Address (KeySet Hash)
  orderbooks : Vector Orderbook marketCount

namespace OrderTable

def new : OrderTable := ⟨∅, ∅, Vector.replicate marketCount Orderbook.new⟩

/-- Insert or replace an order. If active, adds it to the orderbook: long orders
are bids, short ones are asks. -/
def insert (table : OrderTable) (order : Order) : OrderTable where
  orders := table.orders.insert order.orderId order
  byUser := table.byUser.addTo order.userAddress order.orderId
  orderbooks :=
    if order.status = .active then
      modifySlot table.orderbooks order.marketId.toNat fun book =>
        if order.isLong then book.addBid order.triggerPrice order.orderId
        else book.addAsk order.triggerPrice order.orderId
    else table.orderbooks

def get (table : OrderTable) (orderId : Hash) : Option Order := table.orders[orderId]?

def removeFromOrderbook (table : OrderTable) (marketId : MarketId) (isLong : Bool)
    (price : FixedI128) (orderId : Hash) : OrderTable :=
  { table with orderbooks := modifySlot table.orderbooks marketId.toNat fun book =>
      if isLong then book.removeBid price orderId else book.removeAsk price orderId }

/-- Changes a stored order, and takes it off its book if it was active. -/
def finish (table : OrderTable) (orderId : Hash) (f : Order → Order) :
    Option Order × OrderTable :=
  match table.orders[orderId]? with
  | none => (none, table)
  | some order =>
      let changed := f order
      let stored := { table with orders := table.orders.insert orderId changed }
      (some changed,
        if order.status = .active then
          stored.removeFromOrderbook changed.marketId changed.isLong changed.triggerPrice orderId
        else stored)

/-- Cancel an order: set status to cancelled, remove from orderbook. -/
def cancel (table : OrderTable) (orderId : Hash) : Option Order × OrderTable :=
  table.finish orderId fun order => { order with status := .cancelled }

/-- Execute an order: set status to executed, record execution details, remove from
orderbook. -/
def execute (table : OrderTable) (orderId : Hash) (executionPrice : FixedI128)
    (positionId : Hash) (executedAt : UInt64) : Option Order × OrderTable :=
  table.finish orderId fun order => { order with
    status := .executed
    executionPrice := some executionPrice
    positionId := some positionId
    executedAt := some executedAt }

/-- Remove an order completely (from storage and all indexes). -/
def remove (table : OrderTable) (orderId : Hash) : Option Order × OrderTable :=
  match table.orders[orderId]? with
  | none => (none, table)
  | some order =>
      let stored := { table with
        orders := table.orders.erase orderId
        byUser := table.byUser.removeFrom order.userAddress orderId }
      (some order,
        if order.status = .active then
          stored.removeFromOrderbook order.marketId order.isLong order.triggerPrice orderId
        else stored)

def allByUser (order : Iteration) (table : OrderTable) (userAddress : Address) : List Order :=
  Table.collect order table.byUser table.orders userAddress

def orderbook (table : OrderTable) (marketId : MarketId) : Option Orderbook :=
  table.orderbooks[marketId.toNat]?

/-- All orders (for snapshots, diagnostics). -/
def all (order : Iteration) (table : OrderTable) : List Order := table.orders.all order

end OrderTable

end Perfdb
