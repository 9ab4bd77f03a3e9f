import Mathlib
import Perfdb.EngineCalls

set_option autoImplicit false

namespace Perfdb

/-- Every entry of a table that snapshots list is stored under its own key. -/
structure Stores.Keyed (stores : Stores) : Prop where
  positions : stores.positions.positions.Keyed Position.positionId
  orders : stores.orders.orders.Keyed Order.orderId
  balances : stores.balances.balances.Keyed fun balance => (balance.userAddress, balance.token)
  users : stores.users.users.Keyed User.address
  traderStats : stores.traderStats.stats.Keyed TraderStats.address

theorem Stores.keyed_new : Stores.new.Keyed :=
  ⟨Table.Keyed.empty _, Table.Keyed.empty _, Table.Keyed.empty _, Table.Keyed.empty _,
    Table.Keyed.empty _⟩

section Operations

variable {positions : PositionTable} {orders : OrderTable} {balances : BalanceCache}
  {users : UserStore} {stats : TraderStatsStore}

theorem PositionTable.keyed_insert (keyed : positions.positions.Keyed Position.positionId)
    (position : Position) : (positions.insert position).positions.Keyed Position.positionId :=
  Table.Keyed.insert keyed position

theorem PositionTable.keyed_update (keyed : positions.positions.Keyed Position.positionId)
    (id : Hash) {f : Position → Position} (keeps : ∀ p, (f p).positionId = p.positionId) :
    (positions.update id f).2.positions.Keyed Position.positionId :=
  Table.Keyed.modify keyed id keeps

theorem OrderTable.keyed_insert (keyed : orders.orders.Keyed Order.orderId) (order : Order) :
    (orders.insert order).orders.Keyed Order.orderId :=
  Table.Keyed.insert keyed order

theorem OrderTable.keyed_finish (keyed : orders.orders.Keyed Order.orderId) (id : Hash)
    {f : Order → Order} (keeps : ∀ order, (f order).orderId = order.orderId) :
    (orders.finish id f).2.orders.Keyed Order.orderId := by
  unfold OrderTable.finish
  cases found : orders.orders[id]? with
  | none => exact keyed
  | some order =>
      have own : (f order).orderId = id := (keeps order).trans (keyed id order found)
      have stored := Table.Keyed.insert keyed (f order)
      rw [own] at stored
      dsimp only
      split <;> exact stored

theorem BalanceCache.keyed_setRaw
    (keyed : balances.balances.Keyed fun balance => (balance.userAddress, balance.token))
    (user token : Address) (amount locked available : FixedI128) :
    (balances.setRaw user token amount locked available).balances.Keyed
      fun balance => (balance.userAddress, balance.token) :=
  Table.Keyed.insert keyed (⟨user, token, amount, locked, available⟩ : Balance)

theorem UserStore.keyed_ensure (keyed : users.users.Keyed User.address) (address : Address)
    (now : UInt64) : (users.ensure address now).users.Keyed User.address :=
  Table.Keyed.modify (Table.Keyed.insertIfNew keyed (⟨address, _, _, _, _, _, _, _, _⟩ : User))
    address fun _ => rfl

theorem UserStore.keyed_setVault (keyed : users.users.Keyed User.address)
    (address vault : Address) : (users.setVault address vault).users.Keyed User.address :=
  Table.Keyed.modify keyed address fun _ => rfl

theorem TraderStatsStore.keyed_ensure (keyed : stats.stats.Keyed TraderStats.address)
    (address : Address) : (stats.ensure address).stats.Keyed TraderStats.address :=
  Table.Keyed.insertIfNew keyed (TraderStats.zero address)

theorem TraderStatsStore.keyed_update (keyed : stats.stats.Keyed TraderStats.address)
    (address : Address) {f : TraderStats → TraderStats} (keeps : ∀ s, (f s).address = s.address) :
    (stats.update address f).2.stats.Keyed TraderStats.address :=
  Table.Keyed.modify keyed address keeps

theorem TraderStatsStore.keyed_incrementOpenPositions
    (keyed : stats.stats.Keyed TraderStats.address) (address : Address) :
    (stats.incrementOpenPositions address).stats.Keyed TraderStats.address :=
  keyed_update keyed address fun _ => rfl

theorem TraderStatsStore.keyed_decrementOpenPositions
    (keyed : stats.stats.Keyed TraderStats.address) (address : Address) :
    (stats.decrementOpenPositions address).stats.Keyed TraderStats.address :=
  keyed_update keyed address fun _ => rfl

theorem TraderStatsStore.keyed_incrementTrade (keyed : stats.stats.Keyed TraderStats.address)
    (address : Address) (volume pnl fee : FixedI128) (isWin isLiquidation : Bool)
    (timestamp : UInt64) :
    (stats.incrementTrade address volume pnl fee isWin isLiquidation timestamp).2.stats.Keyed
      TraderStats.address :=
  keyed_update keyed address fun _ => rfl

end Operations

theorem Stores.Keyed.event {db : PerfDb} (keyed : db.toStores.Keyed) (indexed : IndexedEvent) :
    (db.applyEvent indexed).toStores.Keyed := by
  obtain ⟨positions, orders, balances, users, traderStats⟩ := keyed
  obtain ⟨blockNumber, blockTimestamp, txHash, txIndex, logIndex, event⟩ := indexed
  cases event with
  | positionOpened =>
      exact ⟨PositionTable.keyed_insert positions _, orders, balances,
        UserStore.keyed_ensure users _ _,
        TraderStatsStore.keyed_incrementOpenPositions
          (TraderStatsStore.keyed_ensure traderStats _) _⟩
  | positionClosed positionId user marketId closedSizeUsd exitPrice realizedPnl isFullClose =>
      have closed (f : Position → Position) (keeps : ∀ p, (f p).positionId = p.positionId) :=
        PositionTable.keyed_update positions positionId keeps
      have traded := TraderStatsStore.keyed_incrementTrade
        (TraderStatsStore.keyed_ensure traderStats user) user closedSizeUsd realizedPnl 0
        (decide (0 < realizedPnl)) false blockTimestamp
      have counted : (if isFullClose then (((db.traderStats.ensure user).incrementTrade user
          closedSizeUsd realizedPnl 0 (decide (0 < realizedPnl)) false
            blockTimestamp).2.decrementOpenPositions user)
          else ((db.traderStats.ensure user).incrementTrade user closedSizeUsd realizedPnl 0
            (decide (0 < realizedPnl)) false blockTimestamp).2).stats.Keyed
          TraderStats.address := by
        cases isFullClose
        · exact traded
        · exact TraderStatsStore.keyed_decrementOpenPositions traded user
      simp only [PerfDb.applyEvent]
      split <;> refine ⟨closed _ fun p => ?_, orders, balances, users, counted⟩ <;>
        cases isFullClose <;> rfl
  | positionModified =>
      simp only [PerfDb.applyEvent, PerfDb.publishFound_toStores]
      exact ⟨PositionTable.keyed_update positions _ fun _ => rfl, orders, balances, users,
        traderStats⟩
  | orderPlaced =>
      exact ⟨positions, OrderTable.keyed_insert orders _, balances,
        UserStore.keyed_ensure users _ _, traderStats⟩
  | orderExecuted =>
      simp only [PerfDb.applyEvent, PerfDb.publishFound_toStores]
      exact ⟨positions, OrderTable.keyed_finish orders _ fun _ => rfl, balances, users, traderStats⟩
  | orderCancelled =>
      simp only [PerfDb.applyEvent, PerfDb.publishFound_toStores]
      exact ⟨positions, OrderTable.keyed_finish orders _ fun _ => rfl, balances, users, traderStats⟩
  | liquidation =>
      simp only [PerfDb.applyEvent]
      exact ⟨PositionTable.keyed_update positions _ fun _ => rfl, orders, balances, users,
        TraderStatsStore.keyed_decrementOpenPositions (TraderStatsStore.keyed_incrementTrade
          (TraderStatsStore.keyed_ensure traderStats _) _ _ _ _ _ _ _) _⟩
  | collateralDeposited =>
      simp only [PerfDb.applyEvent, PerfDb.publishFound_toStores]
      exact ⟨positions, orders, BalanceCache.keyed_setRaw balances _ _ _ _ _,
        UserStore.keyed_ensure users _ _, traderStats⟩
  | collateralWithdrawn =>
      simp only [PerfDb.applyEvent, PerfDb.publishFound_toStores]
      exact ⟨positions, orders, BalanceCache.keyed_setRaw balances _ _ _ _ _, users, traderStats⟩
  | vaultCreated =>
      exact ⟨positions, orders, balances,
        UserStore.keyed_setVault (UserStore.keyed_ensure users _ _) _ _, traderStats⟩
  | fundingRateUpdated | marketPaused | priceUpdated | fundingSettled | marketCreated
  | adlExecuted | vaultDeficit =>
      exact ⟨positions, orders, balances, users, traderStats⟩

theorem Stores.Keyed.tick {db : PerfDb} (keyed : db.toStores.Keyed) (tick : PriceTick) :
    (db.setTickPrice tick).toStores.Keyed :=
  ⟨keyed.positions, keyed.orders, keyed.balances, keyed.users, keyed.traderStats⟩

theorem Stores.Keyed.saved {db : PerfDb} (keyed : db.toStores.Keyed) (block : UInt64)
    (hash : String) (timestamp : UInt64) :
    (db.saveCheckpoint block hash timestamp).toStores.Keyed :=
  ⟨keyed.positions, keyed.orders, keyed.balances, keyed.users, keyed.traderStats⟩

theorem afterCalls_keyed (fmt : Wal.Format) (calls : List EngineCall) {r : Running}
    (keyed : r.db.toStores.Keyed) : (afterCalls fmt calls r).Stored fun stores _ => stores.Keyed :=
  afterCalls_keeps fmt (fun _ _ indexed keyed => keyed.event indexed)
    (fun _ _ sample keyed => keyed.tick sample)
    (fun _ _ block hash timestamp keyed => keyed.saved block hash timestamp) calls keyed

end Perfdb
