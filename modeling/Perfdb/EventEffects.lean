import Mathlib
import Perfdb.Histories
import Perfdb.ReplayAgreement

set_option autoImplicit false

namespace Perfdb

namespace IndexedEvent

def onBalances (indexed : IndexedEvent) (cache : BalanceCache) : BalanceCache :=
  match indexed.event with
  | .collateralDeposited user token amount =>
      let existing := cache.get user token
      let newAmount := (existing.map fun (b : Balance) => b.amount + amount).getD amount
      let newLocked := (existing.map fun (b : Balance) => b.locked).getD 0
      cache.setRaw user token newAmount newLocked (newAmount - newLocked)
  | .collateralWithdrawn user token amount =>
      let existing := cache.get user token
      let newAmount := (existing.map fun (b : Balance) => max (b.amount - amount) 0).getD 0
      let newLocked := (existing.map fun (b : Balance) => b.locked).getD 0
      cache.setRaw user token newAmount newLocked (max (newAmount - newLocked) 0)
  | _ => cache

def onTraderStats (indexed : IndexedEvent) (store : TraderStatsStore) : TraderStatsStore :=
  match indexed.event with
  | .positionOpened _ user _ _ _ _ _ _ _ => (store.ensure user).incrementOpenPositions user
  | .positionClosed _ user _ closedSizeUsd _ realizedPnl isFullClose =>
      let store := ((store.ensure user).incrementTrade user closedSizeUsd realizedPnl 0
        (decide (0 < realizedPnl)) false indexed.blockTimestamp).2
      if isFullClose then store.decrementOpenPositions user else store
  | .liquidation _ user _ _ penalty _ =>
      let store := ((store.ensure user).incrementTrade user 0 (-penalty) 0 false true
        indexed.blockTimestamp).2
      store.decrementOpenPositions user
  | _ => store

def onUsers (indexed : IndexedEvent) (store : UserStore) : UserStore :=
  match indexed.event with
  | .positionOpened _ user _ _ _ _ _ _ _ | .orderPlaced _ user _ _ _ _ _
  | .collateralDeposited user _ _ => store.ensure user indexed.blockTimestamp
  | .vaultCreated user vault => (store.ensure user indexed.blockTimestamp).setVault user vault
  | _ => store

def onOrders (indexed : IndexedEvent) (table : OrderTable) : OrderTable :=
  match indexed.event with
  | .orderPlaced orderId user marketId orderType isLong triggerPrice sizeUsd =>
      table.insert {
        orderId
        userAddress := user
        marketId
        isLong
        orderType := OrderType.ofU8 orderType
        triggerPrice
        limitPrice := none
        sizeUsd
        leverage := 0
        collateralToken := Vector.replicate 20 0
        collateralAmount := 0
        status := .active
        executionPrice := none
        positionId := none
        txHash := indexed.txHash
        blockNumber := indexed.blockNumber
        createdAt := indexed.blockTimestamp
        executedAt := none }
  | .orderExecuted orderId positionId executionPrice =>
      (table.execute orderId executionPrice positionId indexed.blockTimestamp).2
  | .orderCancelled orderId _ => (table.cancel orderId).2
  | _ => table

/-- A position as it is opened, at a price. -/
def opened (indexed : IndexedEvent) (positionId : Hash) (user : Address)
    (marketId : MarketId) (isLong : Bool) (sizeUsd leverage entryPrice : FixedI128)
    (collateralToken : Address) (collateralAmount : FixedI128) : Position where
  positionId
  userAddress := user
  marketId
  isLong
  sizeUsd
  collateralUsd := sizeUsd / max leverage 1
  collateralToken
  collateralAmount
  entryPrice
  exitPrice := none
  realizedPnl := none
  leverage
  status := .open_
  openTx := indexed.txHash
  closeTx := none
  openBlock := indexed.blockNumber
  closeBlock := none
  openedAt := indexed.blockTimestamp
  closedAt := none

/-- What it does to the positions when it is processed live. -/
def onPositions (indexed : IndexedEvent) (table : PositionTable) : PositionTable :=
  match indexed.event with
  | .positionOpened positionId user marketId isLong sizeUsd leverage entryPrice collateralToken
      collateralAmount =>
      table.insert (indexed.opened positionId user marketId isLong sizeUsd leverage entryPrice
        collateralToken collateralAmount)
  | .positionClosed positionId _ _ closedSizeUsd exitPrice realizedPnl isFullClose =>
      (table.update positionId fun p =>
        let p := { p with
          exitPrice := some exitPrice
          realizedPnl := some realizedPnl
          closeTx := some indexed.txHash
          closeBlock := some indexed.blockNumber
          closedAt := some indexed.blockTimestamp }
        if isFullClose then { p with status := .closed }
        else { p with sizeUsd := p.sizeUsd - closedSizeUsd }).2
  | .positionModified positionId newSizeUsd newCollateralUsd newCollateralAmount =>
      (table.update positionId fun p => { p with
        sizeUsd := newSizeUsd
        collateralUsd := newCollateralUsd
        collateralAmount := newCollateralAmount }).2
  | .liquidation positionId _ _ liquidationPrice _ _ =>
      (table.update positionId fun p => { p with
        status := .liquidated
        exitPrice := some liquidationPrice
        closeTx := some indexed.txHash
        closeBlock := some indexed.blockNumber
        closedAt := some indexed.blockTimestamp }).2
  | _ => table

def statsChange (indexed : IndexedEvent) : Option (Address × (TraderStats → TraderStats)) :=
  match indexed.event with
  | .positionOpened _ user _ _ _ _ _ _ _ =>
      some (user, fun s => { s with
        totalPositions := s.totalPositions + 1
        openPositions := s.openPositions + 1 })
  | .positionClosed _ user _ closedSizeUsd _ realizedPnl isFullClose =>
      some (user, fun s =>
        let s := s.addTrade closedSizeUsd realizedPnl 0 (decide (0 < realizedPnl)) false
          indexed.blockTimestamp
        if isFullClose then
          { s with openPositions := if s.openPositions = 0 then 0 else s.openPositions - 1 }
        else s)
  | .liquidation _ user _ _ penalty _ =>
      some (user, fun s =>
        let s := s.addTrade 0 (-penalty) 0 false true indexed.blockTimestamp
        { s with openPositions := if s.openPositions = 0 then 0 else s.openPositions - 1 })
  | _ => none

/-- What it does to the markets apart from their open interest. -/
def onMarkets (indexed : IndexedEvent) (table : MarketStateTable) : MarketStateTable :=
  match indexed.event with
  | .fundingRateUpdated marketId newRatePerSecond fundingRate24h =>
      table.setFundingRate marketId newRatePerSecond fundingRate24h
  | .marketPaused marketId => table.setPaused marketId true
  | _ => table

end IndexedEvent

/-- What an event does, live or replayed, to the stores that both treat alike. -/
structure IndexedEvent.Effects (indexed : IndexedEvent) (before after : Stores) : Prop where
  balances : after.balances = indexed.onBalances before.balances
  traderStats : after.traderStats = indexed.onTraderStats before.traderStats
  users : after.users = indexed.onUsers before.users
  orders : after.orders = indexed.onOrders before.orders
  checkpoint : after.checkpoint = before.checkpoint.advanceBlock indexed.blockNumber
  markets : after.marketState.withoutOi = (indexed.onMarkets before.marketState).withoutOi

theorem applyEvent_effects (indexed : IndexedEvent) (db : PerfDb) :
    indexed.Effects db.toStores (db.applyEvent indexed).toStores := by
  obtain ⟨blockNumber, blockTimestamp, txHash, txIndex, logIndex, event⟩ := indexed
  cases event with
  | positionOpened positionId user marketId isLong =>
      refine ⟨rfl, rfl, rfl, rfl, rfl, ?_⟩
      cases isLong <;> simp [PerfDb.applyEvent, IndexedEvent.onMarkets]
  | positionClosed positionId user marketId closedSizeUsd exitPrice realizedPnl isFullClose =>
      simp only [PerfDb.applyEvent]
      split
      · rename_i pos found
        refine ⟨rfl, rfl, rfl, rfl, rfl, ?_⟩
        cases pos.isLong <;> simp [IndexedEvent.onMarkets]
      · exact ⟨rfl, rfl, rfl, rfl, rfl, rfl⟩
  | _ =>
      simp only [PerfDb.applyEvent, PerfDb.publishFound_toStores]
      exact ⟨rfl, rfl, rfl, rfl, rfl, rfl⟩

theorem applyEvent_positions (indexed : IndexedEvent) (db : PerfDb) :
    (db.applyEvent indexed).positions = indexed.onPositions db.positions := by
  obtain ⟨blockNumber, blockTimestamp, txHash, txIndex, logIndex, event⟩ := indexed
  cases event with
  | positionClosed =>
      simp only [PerfDb.applyEvent]
      split <;> rfl
  | _ =>
      simp only [PerfDb.applyEvent, PerfDb.publishFound_toStores]
      rfl

theorem onTraderStats_eq (indexed : IndexedEvent) (store : TraderStatsStore) :
    indexed.onTraderStats store = match indexed.statsChange with
      | some (user, change) => ((store.ensure user).update user change).2
      | none => store := by
  obtain ⟨blockNumber, blockTimestamp, txHash, txIndex, logIndex, event⟩ := indexed
  cases event with
  | positionClosed positionId user marketId closedSizeUsd exitPrice realizedPnl isFullClose =>
      cases isFullClose
      · rfl
      · exact TraderStatsStore.update_update _ _ _ _
  | liquidation => exact TraderStatsStore.update_update _ _ _ _
  | _ => rfl

theorem replayEvent_effects (indexed : IndexedEvent) (stores : Stores) :
    indexed.Effects stores (replayEvent indexed stores) := by
  obtain ⟨blockNumber, blockTimestamp, txHash, txIndex, logIndex, event⟩ := indexed
  cases event <;> exact ⟨rfl, rfl, rfl, rfl, rfl, rfl⟩

/-- Live application of a list of events. -/
def applyAll (events : List IndexedEvent) (db : PerfDb) : PerfDb :=
  events.foldl (fun db indexed => db.applyEvent indexed) db

theorem applyAll_append (front back : List IndexedEvent) (db : PerfDb) :
    applyAll (front ++ back) db = applyAll back (applyAll front db) := List.foldl_append

theorem applyAll_toStores (events : List IndexedEvent) {left right : PerfDb}
    (same : left.toStores = right.toStores) :
    (applyAll events left).toStores = (applyAll events right).toStores := by
  induction events generalizing left right with
  | nil => exact same
  | cons indexed events ih => exact ih (PerfDb.applyEvent_toStores indexed same)

/-- A run that returns returns from each part of its start. -/
theorem runLive_front {fmt : Wal.Format} {front items : List Feed} (inside : front <+: items)
    {r t : Running} (run : runLive fmt items r = .ok () t) :
    ∃ u, runLive fmt front r = .ok () u := by
  induction front generalizing items r with
  | nil => exact ⟨r, rfl⟩
  | cons item front ih =>
      obtain ⟨items, rfl, shorter⟩ := List.cons_prefix_iff.mp inside
      obtain ⟨_, u, first, rest⟩ := bind_ok run
      obtain ⟨v, later⟩ := ih shorter rest
      exact ⟨v, (bind_of_ok first).trans later⟩

theorem runLive_events {fmt : Wal.Format} (events : List IndexedEvent) {r t : Running}
    (run : runLive fmt (events.map .event) r = .ok () t) :
    t.db.toStores = (applyAll events r.db).toStores := by
  induction events generalizing r with
  | nil =>
      obtain ⟨_, rfl⟩ : () = () ∧ r = t := EStateM.Result.ok.inj run
      rfl
  | cons indexed events ih =>
      obtain ⟨_, u, first, rest⟩ := bind_ok run
      obtain ⟨s, _, rfl⟩ := PerfDb.processEvent_ok first
      rw [ih rest]
      exact applyAll_toStores events (PerfDb.applyEvent_toStores indexed rfl)

/-- A database of some stores, with nothing in its files. -/
def PerfDb.ofStores (stores : Stores) : PerfDb where
  toStores := stores
  config := ⟨"data", "wal", 1024, .none⟩
  tickStore := .new
  candleStore := .new
  candleBuilder := .new
  pubsub := .new
  wal := ⟨⟨"wal", 1024, .none⟩, 0, ⟨"wal_00000000.bin", []⟩, 0, 0⟩

end Perfdb
