import Mathlib
import Perfdb.EventChanges
import Perfdb.EventQueries
import Perfdb.LevelChanges

set_option autoImplicit false

namespace Perfdb

namespace Event

/-- The users an event names; a keeper and a vault are none of them. -/
def users : Event → List Address
  | .positionOpened _ user _ _ _ _ _ _ _ | .positionClosed _ user _ _ _ _ _
  | .orderPlaced _ user _ _ _ _ _ | .orderCancelled _ user | .liquidation _ user _ _ _ _
  | .collateralDeposited user _ _ | .collateralWithdrawn user _ _ | .vaultCreated user _ => [user]
  | _ => []

def positionIds : Event → List Hash
  | .positionOpened positionId _ _ _ _ _ _ _ _ | .positionClosed positionId _ _ _ _ _ _
  | .positionModified positionId _ _ _ | .orderExecuted _ positionId _
  | .liquidation positionId _ _ _ _ _ | .adlExecuted positionId _ => [positionId]
  | _ => []

def orderIds : Event → List Hash
  | .orderPlaced orderId _ _ _ _ _ _ | .orderExecuted orderId _ _ | .orderCancelled orderId _ =>
      [orderId]
  | _ => []

def fundedMarket : Event → Option MarketId
  | .fundingRateUpdated marketId _ _ => some marketId
  | _ => none

/-- No common user, position or order, and not both a funding rate of one market. -/
structure Independent (one other : Event) : Prop where
  users : one.users.Disjoint other.users
  positions : one.positionIds.Disjoint other.positionIds
  orders : one.orderIds.Disjoint other.orderIds
  funding : ∀ marketId, one.fundedMarket = some marketId → other.fundedMarket ≠ some marketId

theorem Independent.symm {one other : Event} (independent : one.Independent other) :
    other.Independent one :=
  ⟨independent.users.symm, independent.positions.symm, independent.orders.symm,
    fun marketId second first => independent.funding marketId first second⟩

end Event

namespace IndexedEvent

section Named

variable (indexed : IndexedEvent)

theorem balanceChange_named :
    ∀ key ∈ indexed.balanceChange.map Prod.fst, key.1 ∈ indexed.event.users := by
  obtain ⟨blockNumber, blockTimestamp, txHash, txIndex, logIndex, event⟩ := indexed
  cases event <;> simp [balanceChange, Event.users]

theorem tokenListed_named :
    ∀ user ∈ indexed.tokenListed.map Prod.fst, user ∈ indexed.event.users := by
  obtain ⟨blockNumber, blockTimestamp, txHash, txIndex, logIndex, event⟩ := indexed
  cases event <;> simp [tokenListed, Event.users]

theorem traderChange_named :
    ∀ user ∈ indexed.traderChange.map Prod.fst, user ∈ indexed.event.users := by
  obtain ⟨blockNumber, blockTimestamp, txHash, txIndex, logIndex, event⟩ := indexed
  cases event <;> simp [traderChange, statsChange, Event.users]

theorem dailyChange_named :
    ∀ key ∈ indexed.dailyChange.map Prod.fst, key.1 ∈ indexed.event.users := by
  obtain ⟨blockNumber, blockTimestamp, txHash, txIndex, logIndex, event⟩ := indexed
  cases event <;> simp [dailyChange, Event.users]

theorem userChange_named :
    ∀ user ∈ indexed.userChange.map Prod.fst, user ∈ indexed.event.users := by
  obtain ⟨blockNumber, blockTimestamp, txHash, txIndex, logIndex, event⟩ := indexed
  cases event <;> simp [userChange, Event.users]

theorem positionListed_named :
    ∀ user ∈ indexed.positionListed.map Prod.fst, user ∈ indexed.event.users := by
  obtain ⟨blockNumber, blockTimestamp, txHash, txIndex, logIndex, event⟩ := indexed
  cases event <;> simp [positionListed, Event.users]

theorem orderListed_named :
    ∀ user ∈ indexed.orderListed.map Prod.fst, user ∈ indexed.event.users := by
  obtain ⟨blockNumber, blockTimestamp, txHash, txIndex, logIndex, event⟩ := indexed
  cases event <;> simp [orderListed, Event.users]

theorem positionChange_named :
    ∀ positionId ∈ indexed.positionChange.map Prod.fst, positionId ∈ indexed.event.positionIds := by
  obtain ⟨blockNumber, blockTimestamp, txHash, txIndex, logIndex, event⟩ := indexed
  cases event <;> simp [positionChange, Event.positionIds]

theorem orderChange_named :
    ∀ orderId ∈ indexed.orderChange.map Prod.fst, orderId ∈ indexed.event.orderIds := by
  obtain ⟨blockNumber, blockTimestamp, txHash, txIndex, logIndex, event⟩ := indexed
  cases event <;> simp [orderChange, Event.orderIds]

theorem levelChange_named (table : OrderTable) (marketId : MarketId) (isLong : Bool)
    (price : FixedI128) :
    ∀ orderId ∈ (indexed.levelChange table marketId isLong price).orderId,
      orderId ∈ indexed.event.orderIds := by
  obtain ⟨blockNumber, blockTimestamp, txHash, txIndex, logIndex, event⟩ := indexed
  cases event with
  | orderPlaced =>
      simp only [levelChange, Event.orderIds]
      split <;> simp [LevelChange.orderId]
  | orderExecuted | orderCancelled =>
      simp only [levelChange, Event.orderIds]
      split
      · split <;> simp [LevelChange.orderId]
      · simp [LevelChange.orderId]
  | _ => simp [levelChange, LevelChange.orderId]

theorem marketChange_named (positions : PositionTable) {marketId : MarketId}
    {change : MarketChange} (changed : indexed.marketChange positions = some (marketId, change))
    (funding : change.isFunding = true) : indexed.event.fundedMarket = some marketId := by
  obtain ⟨blockNumber, blockTimestamp, txHash, txIndex, logIndex, event⟩ := indexed
  cases event with
  | positionOpened positionId user market isLong =>
      obtain ⟨rfl, rfl⟩ := Prod.mk.inj (Option.some.inj changed)
      cases isLong <;> cases funding
  | positionClosed =>
      obtain ⟨p, _, same⟩ := Option.map_eq_some_iff.mp changed
      obtain ⟨rfl, rfl⟩ := Prod.mk.inj same
      cases side : p.isLong <;> rw [side] at funding <;> cases funding
  | marketPaused =>
      obtain ⟨rfl, rfl⟩ := Prod.mk.inj (Option.some.inj changed)
      cases funding
  | fundingRateUpdated =>
      obtain ⟨rfl, rfl⟩ := Prod.mk.inj (Option.some.inj changed)
      rfl
  | _ => cases changed

end Named

theorem apart_of_named {κ β ν : Type} {one other : Option (κ × β)} {names others : List ν}
    {name : κ → ν} (disjoint : names.Disjoint others)
    (first : ∀ key ∈ one.map Prod.fst, name key ∈ names)
    (second : ∀ key ∈ other.map Prod.fst, name key ∈ others) :
    ∀ key ∈ one.map Prod.fst, key ∉ other.map Prod.fst :=
  fun key here there => disjoint (first key here) (second key there)

section Other

variable {one other : IndexedEvent} (independent : one.event.Independent other.event)
include independent

theorem get_onPositions (table : PositionTable) {positionId : Hash}
    (named : positionId ∈ other.event.positionIds) :
    (one.onPositions table).get positionId = table.get positionId := by
  rw [PositionTable.get, PositionTable.get, onPositions_change]
  exact Table.getElem?_change_of_ne _ fun here =>
    independent.positions (one.positionChange_named positionId here) named

theorem get_onOrders (table : OrderTable) {orderId : Hash}
    (named : orderId ∈ other.event.orderIds) :
    (one.onOrders table).get orderId = table.get orderId := by
  rw [OrderTable.get, OrderTable.get, (one.onOrders_change table).1]
  exact Table.getElem?_change_of_ne _ fun here =>
    independent.orders (one.orderChange_named orderId here) named

theorem marketChange_onPositions (table : PositionTable) :
    other.marketChange (one.onPositions table) = other.marketChange table := by
  obtain ⟨blockNumber, blockTimestamp, txHash, txIndex, logIndex, event⟩ := other
  cases event with
  | positionClosed positionId =>
      have here := get_onPositions independent table (List.mem_singleton_self positionId)
      simp only [marketChange, here]
  | _ => rfl

theorem levelChange_onOrders (table : OrderTable) (marketId : MarketId) (isLong : Bool)
    (price : FixedI128) : other.levelChange (one.onOrders table) marketId isLong price =
      other.levelChange table marketId isLong price := by
  obtain ⟨blockNumber, blockTimestamp, txHash, txIndex, logIndex, event⟩ := other
  cases event with
  | orderExecuted orderId | orderCancelled orderId =>
      have here := get_onOrders independent table (List.mem_singleton_self orderId)
      simp only [levelChange, here]
  | _ => rfl

end Other

end IndexedEvent

/-- The same stores, up to the order of the ids at a price and what records the order of
the events: the event log and the checkpoint. -/
structure Stores.SameOutcome (left right : Stores) : Prop where
  positions : left.positions = right.positions
  orders : left.orders.orders = right.orders.orders
  ordersOfUser : left.orders.byUser = right.orders.byUser
  levels : ∀ marketId isLong price,
    left.orders.levelSet marketId isLong price = right.orders.levelSet marketId isLong price
  balances : left.balances = right.balances
  users : left.users = right.users
  traderStats : left.traderStats = right.traderStats
  dailyStats : left.dailyStats = right.dailyStats
  markets : left.marketState = right.marketState

namespace IndexedEvent

section Commute

variable {one other : IndexedEvent} (independent : one.event.Independent other.event)
include independent

theorem onPositions_comm (table : PositionTable) :
    other.onPositions (one.onPositions table) = one.onPositions (other.onPositions table) := by
  simp only [onPositions_change, PositionTable.mk.injEq]
  refine ⟨?_, ?_, ?_⟩
  · exact Table.change_comm_of_ne _ (apart_of_named independent.positions
      one.positionChange_named other.positionChange_named)
  · exact Table.change_comm_of_ne _ (apart_of_named independent.users
      one.positionListed_named other.positionListed_named)
  · -- positions of one market are listed together
    refine Table.change_comm _ fun key first second lists list ids => ?_
    obtain ⟨positionId, rfl⟩ := one.marketListed_listing lists
    obtain ⟨entry, rfl⟩ := other.marketListed_listing list
    exact Table.listing_comm positionId entry ids

theorem onBalances_comm (cache : BalanceCache) :
    other.onBalances (one.onBalances cache) = one.onBalances (other.onBalances cache) := by
  simp only [onBalances_eq, BalanceCache.mk.injEq]
  exact ⟨Table.change_comm_of_ne _ (apart_of_named independent.users
      one.balanceChange_named other.balanceChange_named),
    Table.change_comm_of_ne _ (apart_of_named independent.users
      one.tokenListed_named other.tokenListed_named)⟩

theorem onUsers_comm (store : UserStore) :
    other.onUsers (one.onUsers store) = one.onUsers (other.onUsers store) := by
  simp only [onUsers_change, UserStore.mk.injEq, and_true]
  exact Table.change_comm_of_ne _ (apart_of_named independent.users
    one.userChange_named other.userChange_named)

theorem onTraderStats_comm (store : TraderStatsStore) :
    other.onTraderStats (one.onTraderStats store) =
      one.onTraderStats (other.onTraderStats store) := by
  have stats : (other.onTraderStats (one.onTraderStats store)).stats =
      (one.onTraderStats (other.onTraderStats store)).stats := by
    simp only [onTraderStats_change]
    exact Table.change_comm_of_ne _ (apart_of_named independent.users
      one.traderChange_named other.traderChange_named)
  exact congrArg TraderStatsStore.mk stats

theorem onDailyStats_comm (store : DailyStatsStore) :
    other.onDailyStats (one.onDailyStats store) = one.onDailyStats (other.onDailyStats store) := by
  have daily : (other.onDailyStats (one.onDailyStats store)).traderDaily =
      (one.onDailyStats (other.onDailyStats store)).traderDaily := by
    simp only [onDailyStats_change]
    exact Table.change_comm_of_ne _ (apart_of_named independent.users
      one.dailyChange_named other.dailyChange_named)
  exact congrArg DailyStatsStore.mk daily

theorem onOrders_comm (table : OrderTable) :
    (other.onOrders (one.onOrders table)).orders = (one.onOrders (other.onOrders table)).orders ∧
      (other.onOrders (one.onOrders table)).byUser =
        (one.onOrders (other.onOrders table)).byUser := by
  simp only [onOrders_change]
  exact ⟨Table.change_comm_of_ne _ (apart_of_named independent.orders
      one.orderChange_named other.orderChange_named),
    Table.change_comm_of_ne _ (apart_of_named independent.users
      one.orderListed_named other.orderListed_named)⟩

theorem levelSet_comm (table : OrderTable) (marketId : MarketId) (isLong : Bool)
    (price : FixedI128) :
    (other.onOrders (one.onOrders table)).levelSet marketId isLong price =
      (one.onOrders (other.onOrders table)).levelSet marketId isLong price := by
  simp only [onOrders_levelSet, levelChange_onOrders independent,
    levelChange_onOrders independent.symm]
  refine LevelChange.apply_comm (fun orderId here there => ?_) _
  exact independent.orders (one.levelChange_named table marketId isLong price orderId here)
    (other.levelChange_named table marketId isLong price orderId there)

end Commute

end IndexedEvent

/-- The logs have the same partitions with the same events in each, in whatever order, and the
checkpoints differ in their block at most. -/
structure Stores.SameRecords (left right : Stores) : Prop where
  ofMarket : ∀ marketId : MarketId,
    Option.Rel List.Perm left.events.byMarket[marketId]? right.events.byMarket[marketId]?
  ofTrader : ∀ trader : Address,
    Option.Rel List.Perm left.events.byTrader[trader]? right.events.byTrader[trader]?
  totalCount : left.events.totalCount = right.events.totalCount
  blockHash : left.checkpoint.lastBlockHash = right.checkpoint.lastBlockHash
  blockTimestamp : left.checkpoint.lastBlockTimestamp = right.checkpoint.lastBlockTimestamp

/-- Two events are added to the partitions of their keys in either order. -/
theorem EventStore.push_comm {κ : Type} [Ord κ] [Std.TransOrd κ] [Std.LawfulEqOrd κ]
    [DecidableEq κ] (partitions : Table κ (List IndexedEvent)) (first second : Option κ)
    (one other : IndexedEvent) (key : κ) :
    Option.Rel List.Perm (push (push partitions first one) second other)[key]?
      (push (push partitions second other) first one)[key]? := by
  have alike (found : Option (List IndexedEvent)) : Option.Rel List.Perm found found := by
    cases found with
    | none => exact .none
    | some events => exact .some (List.Perm.refl events)
  cases first with
  | none => exact alike _
  | some home =>
      cases second with
      | none => exact alike _
      | some away =>
          simp only [push, Table.getElem?_alter]
          by_cases here : home = key
          · by_cases there : away = key
            · subst here
              subst there
              simp only [if_true, Option.getD_some, List.append_assoc]
              exact .some (List.Perm.append_left _ (List.Perm.swap other one []))
            · simp only [here, there, if_true, if_false]
              exact alike _
          · by_cases there : away = key
            · simp only [here, there, if_true, if_false]
              exact alike _
            · simp only [here, there, if_false]
              exact alike _

theorem applyEvent_records (one other : IndexedEvent) (db : PerfDb) :
    ((db.applyEvent one).applyEvent other).toStores.SameRecords
      ((db.applyEvent other).applyEvent one).toStores where
  ofMarket marketId := by
    simp only [applyEvent_events]
    exact EventStore.push_comm _ _ _ _ _ marketId
  ofTrader trader := by
    simp only [applyEvent_events]
    exact EventStore.push_comm _ _ _ _ _ trader
  totalCount := by
    simp only [applyEvent_events]
    rfl
  blockHash := by
    simp only [(applyEvent_effects _ _).checkpoint]
    rfl
  blockTimestamp := by
    simp only [(applyEvent_effects _ _).checkpoint]
    rfl

theorem applyEvent_comm {one other : IndexedEvent}
    (independent : one.event.Independent other.event) (db : PerfDb) :
    ((db.applyEvent one).applyEvent other).toStores.SameOutcome
      ((db.applyEvent other).applyEvent one).toStores where
  positions := by
    simp only [applyEvent_positions]
    exact IndexedEvent.onPositions_comm independent _
  orders := by
    simp only [(applyEvent_effects _ _).orders]
    exact (IndexedEvent.onOrders_comm independent _).1
  ordersOfUser := by
    simp only [(applyEvent_effects _ _).orders]
    exact (IndexedEvent.onOrders_comm independent _).2
  levels := by
    simp only [(applyEvent_effects _ _).orders]
    exact IndexedEvent.levelSet_comm independent _
  balances := by
    simp only [(applyEvent_effects _ _).balances]
    exact IndexedEvent.onBalances_comm independent _
  users := by
    simp only [(applyEvent_effects _ _).users]
    exact IndexedEvent.onUsers_comm independent _
  traderStats := by
    simp only [(applyEvent_effects _ _).traderStats]
    exact IndexedEvent.onTraderStats_comm independent _
  dailyStats := by
    simp only [applyEvent_dailyStats]
    exact IndexedEvent.onDailyStats_comm independent _
  markets := by
    simp only [applyEvent_markets, applyEvent_positions,
      IndexedEvent.marketChange_onPositions independent,
      IndexedEvent.marketChange_onPositions independent.symm]
    refine MarketStateTable.change_comm _ fun marketId first second is_first is_second funds => ?_
    by_contra both
    exact independent.funding marketId (one.marketChange_named _ is_first funds)
      (other.marketChange_named _ is_second (Bool.not_eq_false _ ▸ both))

/-- Events that name no common user, position or order come to the same in either order. -/
theorem independent_events_commute (fmt : Wal.Format) (one other : IndexedEvent)
    (independent : one.event.Independent other.event) (r t u : Running)
    (forth : runLive fmt [.event one, .event other] r = .ok () t)
    (back : runLive fmt [.event other, .event one] r = .ok () u) :
    t.db.toStores.SameOutcome u.db.toStores ∧ t.db.toStores.SameRecords u.db.toStores := by
  rw [runLive_events [one, other] forth, runLive_events [other, one] back]
  exact ⟨applyEvent_comm independent r.db, applyEvent_records one other r.db⟩

/-- Two users open positions in one market. -/
theorem independent_events_commute_opened :
    ∃ db opened t u, PerfDb.open_ Bincode.formats .stored ⟨"data", "wal", 1024, .none⟩ .fresh =
        .ok db opened ∧
      let token := Vector.replicate 20 9
      let one : IndexedEvent := ⟨5, 1700000000, Vector.replicate 32 0, 0, 0,
        .positionOpened (Vector.replicate 32 1) (Vector.replicate 20 1) 3 true 100 2 40 token 50⟩
      let other : IndexedEvent := ⟨5, 1700000000, Vector.replicate 32 0, 0, 1,
        .positionOpened (Vector.replicate 32 2) (Vector.replicate 20 2) 3 true 300 3 40 token 100⟩
      runLive Bincode.format [.event one, .event other] (opened.running db) = .ok () t ∧
      runLive Bincode.format [.event other, .event one] (opened.running db) = .ok () u ∧
      t.db.toStores.SameOutcome u.db.toStores ∧ t.db.toStores.SameRecords u.db.toStores := by
  obtain ⟨db, opened, run, stores, ready⟩ := PerfDb.open_blank Bincode.formats .stored
    ⟨"data", "wal", 1024, .none⟩ Disk.fresh_blank
  obtain ⟨t, forth⟩ := runLive_returns Bincode.format _ ready
  obtain ⟨u, back⟩ := runLive_returns Bincode.format _ ready
  refine ⟨db, opened, t, u, run, forth, back,
    independent_events_commute Bincode.format _ _ ?_ _ t u forth back⟩
  exact ⟨List.disjoint_singleton.mpr (by decide), List.disjoint_singleton.mpr (by decide),
    List.disjoint_nil_left _, nofun⟩

end Perfdb
