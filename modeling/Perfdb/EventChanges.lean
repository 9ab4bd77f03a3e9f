import Mathlib
import Perfdb.Commuting
import Perfdb.DailyBooks

set_option autoImplicit false

namespace Perfdb

namespace IndexedEvent

variable (indexed : IndexedEvent)

def balanceChange : Option ((Address × Address) × (Option Balance → Option Balance)) :=
  match indexed.event with
  | .collateralDeposited user token amount => some ((user, token), fun existing =>
      let newAmount := (existing.map fun (b : Balance) => b.amount + amount).getD amount
      let newLocked := (existing.map fun (b : Balance) => b.locked).getD 0
      some ⟨user, token, newAmount, newLocked, newAmount - newLocked⟩)
  | .collateralWithdrawn user token amount => some ((user, token), fun existing =>
      let newAmount := (existing.map fun (b : Balance) => max (b.amount - amount) 0).getD 0
      let newLocked := (existing.map fun (b : Balance) => b.locked).getD 0
      some ⟨user, token, newAmount, newLocked, max (newAmount - newLocked) 0⟩)
  | _ => none

def tokenListed : Option (Address × (Option (KeySet Address) → Option (KeySet Address))) :=
  match indexed.event with
  | .collateralDeposited user token _ | .collateralWithdrawn user token _ =>
      some (user, Table.listing token)
  | _ => none

theorem onBalances_eq (cache : BalanceCache) : indexed.onBalances cache =
    ⟨cache.balances.change indexed.balanceChange, cache.userTokens.change indexed.tokenListed⟩ := by
  obtain ⟨blockNumber, blockTimestamp, txHash, txIndex, logIndex, event⟩ := indexed
  cases event with
  | collateralDeposited user token amount =>
      refine congrArg₂ BalanceCache.mk ?_ rfl
      rw [balanceChange, Table.insert_eq_change]
      apply Std.ExtTreeMap.ext_getElem?
      intro key
      rw [Table.getElem?_change, Table.getElem?_change]
      rfl
  | collateralWithdrawn user token amount =>
      refine congrArg₂ BalanceCache.mk ?_ rfl
      rw [balanceChange, Table.insert_eq_change]
      apply Std.ExtTreeMap.ext_getElem?
      intro key
      rw [Table.getElem?_change, Table.getElem?_change]
      rfl
  | _ => rfl

def traderChange : Option (Address × (Option TraderStats → Option TraderStats)) :=
  indexed.statsChange.map fun named =>
    (named.1, fun known => some (named.2 (known.getD (TraderStats.zero named.1))))

theorem onTraderStats_change (store : TraderStatsStore) :
    (indexed.onTraderStats store).stats = store.stats.change indexed.traderChange := by
  rw [onTraderStats_eq, traderChange]
  cases indexed.statsChange with
  | none => rfl
  | some named => exact store.ensure_update named.1 named.2

def dailyChange : Option ((Address × UInt32) × (Option DailyStats → Option DailyStats)) :=
  match indexed.event with
  | .positionClosed _ user _ closedSizeUsd _ realizedPnl _ =>
      let date := timestampToDate indexed.blockTimestamp
      some ((user, date), fun
        | some s => some { s with
            volume := s.volume + closedSizeUsd
            pnl := s.pnl + realizedPnl
            trades := s.trades + 1
            fees := s.fees + 0 }
        | none => some { date, pnl := realizedPnl, volume := closedSizeUsd, trades := 1, fees := 0 })
  | _ => none

theorem onDailyStats_change (store : DailyStatsStore) :
    (indexed.onDailyStats store).traderDaily = store.traderDaily.change indexed.dailyChange := by
  obtain ⟨blockNumber, blockTimestamp, txHash, txIndex, logIndex, event⟩ := indexed
  cases event <;> rfl

/-- A user as `ensure` leaves it. -/
def ensured (user : Address) (known : Option User) : User :=
  { known.getD
      { address := user
        vaultAddress := none
        referralCode := none
        referredBy := none
        tier := "bronze"
        feeDiscountBps := 0
        createdAt := indexed.blockTimestamp
        firstTradeAt := none
        lastActiveAt := some indexed.blockTimestamp } with
    lastActiveAt := some indexed.blockTimestamp }

def userChange : Option (Address × (Option User → Option User)) :=
  match indexed.event with
  | .positionOpened _ user _ _ _ _ _ _ _ | .orderPlaced _ user _ _ _ _ _
  | .collateralDeposited user _ _ => some (user, fun known => some (indexed.ensured user known))
  | .vaultCreated user vault => some (user, fun known =>
      some { indexed.ensured user known with vaultAddress := some vault })
  | _ => none

theorem ensure_change (store : UserStore) (user : Address) :
    (store.ensure user indexed.blockTimestamp).users =
      store.users.change (some (user, fun known => some (indexed.ensured user known))) := by
  rw [UserStore.ensure, Table.modify_eq_change, Table.insertIfNew_eq_change, Table.change_change]
  rfl

theorem onUsers_change (store : UserStore) : indexed.onUsers store =
    ⟨store.users.change indexed.userChange, store.byReferralCode⟩ := by
  obtain ⟨blockNumber, blockTimestamp, txHash, txIndex, logIndex, event⟩ := indexed
  cases event with
  | positionOpened | orderPlaced | collateralDeposited =>
      exact congrArg₂ UserStore.mk (ensure_change ⟨_, blockTimestamp, _, _, _, _⟩ store _) rfl
  | vaultCreated user vault =>
      refine congrArg₂ UserStore.mk ?_ rfl
      have ensured := ensure_change ⟨blockNumber, blockTimestamp, txHash, txIndex, logIndex,
        .vaultCreated user vault⟩ store user
      change (store.ensure user blockTimestamp).users.modify user _ = _
      rw [ensured, Table.modify_eq_change, Table.change_change]
      rfl
  | _ => rfl

def positionChange : Option (Hash × (Option Position → Option Position)) :=
  match indexed.event with
  | .positionOpened positionId user marketId isLong sizeUsd leverage entryPrice collateralToken
      collateralAmount =>
      some (positionId, fun _ => some (indexed.opened positionId user marketId isLong sizeUsd
        leverage entryPrice collateralToken collateralAmount))
  | .positionClosed positionId _ _ closedSizeUsd exitPrice realizedPnl isFullClose =>
      some (positionId, Option.map fun p =>
        let p := { p with
          exitPrice := some exitPrice
          realizedPnl := some realizedPnl
          closeTx := some indexed.txHash
          closeBlock := some indexed.blockNumber
          closedAt := some indexed.blockTimestamp }
        if isFullClose then { p with status := .closed }
        else { p with sizeUsd := p.sizeUsd - closedSizeUsd })
  | .positionModified positionId newSizeUsd newCollateralUsd newCollateralAmount =>
      some (positionId, Option.map fun p => { p with
        sizeUsd := newSizeUsd
        collateralUsd := newCollateralUsd
        collateralAmount := newCollateralAmount })
  | .liquidation positionId _ _ liquidationPrice _ _ =>
      some (positionId, Option.map fun p => { p with
        status := .liquidated
        exitPrice := some liquidationPrice
        closeTx := some indexed.txHash
        closeBlock := some indexed.blockNumber
        closedAt := some indexed.blockTimestamp })
  | _ => none

def positionListed : Option (Address × (Option (KeySet Hash) → Option (KeySet Hash))) :=
  match indexed.event with
  | .positionOpened positionId user _ _ _ _ _ _ _ => some (user, Table.listing positionId)
  | _ => none

def marketListed : Option (MarketId × (Option (KeySet Hash) → Option (KeySet Hash))) :=
  match indexed.event with
  | .positionOpened positionId _ marketId _ _ _ _ _ _ => some (marketId, Table.listing positionId)
  | _ => none

theorem marketListed_listing {key : MarketId} {update : Option (KeySet Hash) → Option (KeySet Hash)}
    (lists : indexed.marketListed = some (key, update)) :
    ∃ positionId, update = Table.listing positionId := by
  obtain ⟨blockNumber, blockTimestamp, txHash, txIndex, logIndex, event⟩ := indexed
  cases event with
  | positionOpened positionId =>
      exact ⟨positionId, (congrArg Prod.snd (Option.some.inj lists)).symm⟩
  | _ => cases lists

theorem onPositions_change (table : PositionTable) : indexed.onPositions table =
    ⟨table.positions.change indexed.positionChange, table.byUser.change indexed.positionListed,
      table.byMarket.change indexed.marketListed⟩ := by
  obtain ⟨blockNumber, blockTimestamp, txHash, txIndex, logIndex, event⟩ := indexed
  cases event with
  | positionOpened =>
      simp only [onPositions, PositionTable.insert, Table.insert_eq_change]
      rfl
  | positionClosed | positionModified | liquidation =>
      simp only [onPositions, PositionTable.update, Table.modify_eq_change]
      rfl
  | _ => rfl

def orderChange : Option (Hash × (Option Order → Option Order)) :=
  match indexed.event with
  | .orderPlaced orderId user marketId orderType isLong triggerPrice sizeUsd =>
      some (orderId, fun _ => some {
        orderId
        userAddress := user
        marketId
        isLong
        orderType := OrderType.ofU8 orderType
        triggerPrice
        limitPrice := none
        sizeUsd
        leverage := 0
        collateralToken := Vector.replicate 20 0
        collateralAmount := 0
        status := .active
        executionPrice := none
        positionId := none
        txHash := indexed.txHash
        blockNumber := indexed.blockNumber
        createdAt := indexed.blockTimestamp
        executedAt := none })
  | .orderExecuted orderId positionId executionPrice =>
      some (orderId, Option.map fun order => { order with
        status := .executed
        executionPrice := some executionPrice
        positionId := some positionId
        executedAt := some indexed.blockTimestamp })
  | .orderCancelled orderId _ =>
      some (orderId, Option.map fun order => { order with status := .cancelled })
  | _ => none

def orderListed : Option (Address × (Option (KeySet Hash) → Option (KeySet Hash))) :=
  match indexed.event with
  | .orderPlaced orderId user _ _ _ _ _ => some (user, Table.listing orderId)
  | _ => none

theorem finish_change (table : OrderTable) (orderId : Hash) (f : Order → Order) :
    (table.finish orderId f).2.orders = table.orders.change (some (orderId, Option.map f)) ∧
      (table.finish orderId f).2.byUser = table.byUser := by
  have changed : table.orders.change (some (orderId, Option.map f)) =
      table.orders[orderId]?.elim table.orders fun order =>
        table.orders.insert orderId (f order) := by
    apply Std.ExtTreeMap.ext_getElem?
    intro other
    rw [Table.getElem?_change]
    by_cases same : orderId = other
    · subst same
      cases found : table.orders[orderId]? <;> simp [found]
    · cases table.orders[orderId]? <;> simp [same, Table.getElem?_insert]
  rw [changed, OrderTable.finish]
  cases table.orders[orderId]? with
  | none => exact ⟨rfl, rfl⟩
  | some order =>
      simp only
      split <;> exact ⟨rfl, rfl⟩

theorem onOrders_change (table : OrderTable) :
    (indexed.onOrders table).orders = table.orders.change indexed.orderChange ∧
      (indexed.onOrders table).byUser = table.byUser.change indexed.orderListed := by
  obtain ⟨blockNumber, blockTimestamp, txHash, txIndex, logIndex, event⟩ := indexed
  cases event with
  | orderPlaced => exact ⟨Table.insert_eq_change _ _ _, rfl⟩
  | orderExecuted | orderCancelled => exact finish_change table _ _
  | _ => exact ⟨rfl, rfl⟩

end IndexedEvent

/-- What an event does to its market. -/
inductive MarketChange where
  | long (delta : FixedI128)
  | short (delta : FixedI128)
  | funding (ratePerSecond rate24h : FixedI128)
  | pause

namespace MarketChange

def apply : MarketChange → MarketInner → MarketInner
  | long delta, inner => { inner with longOi := inner.longOi + delta }
  | short delta, inner => { inner with shortOi := inner.shortOi + delta }
  | funding ratePerSecond rate24h, inner =>
      { inner with fundingRatePerSecond := ratePerSecond, fundingRate24h := rate24h }
  | pause, inner => { inner with paused := true }

def side (isLong : Bool) (delta : FixedI128) : MarketChange :=
  if isLong then long delta else short delta

def isFunding : MarketChange → Bool
  | funding _ _ => true
  | _ => false

/-- Two changes commute unless both set the funding rate. -/
theorem apply_comm {one other : MarketChange}
    (apart : one.isFunding = true → other.isFunding = false) (inner : MarketInner) :
    other.apply (one.apply inner) = one.apply (other.apply inner) := by
  cases one with
  | long =>
      cases other with
      | long => simp only [apply, add_right_comm]
      | _ => rfl
  | short =>
      cases other with
      | short => simp only [apply, add_right_comm]
      | _ => rfl
  | funding =>
      cases other with
      | funding => exact nomatch apart rfl
      | _ => rfl
  | pause => cases other <;> rfl

end MarketChange

namespace MarketStateTable

variable (table : MarketStateTable)

def change : Option (MarketId × MarketChange) → MarketStateTable
  | some (marketId, change) => table.withInner marketId change.apply
  | none => table

theorem change_comm {one other : Option (MarketId × MarketChange)}
    (apart : ∀ marketId first second, one = some (marketId, first) →
      other = some (marketId, second) → first.isFunding = true → second.isFunding = false) :
    (table.change one).change other = (table.change other).change one := by
  cases one with
  | none => rfl
  | some named =>
      obtain ⟨marketId, first⟩ := named
      cases other with
      | none => rfl
      | some named =>
          obtain ⟨market, second⟩ := named
          simp only [change, withInner, withSlot]
          refine congrArg MarketStateTable.mk (modifySlot_comm _ _ _ fun same slot => ?_)
          obtain rfl := UInt16.toNat_inj.mp same
          have inner := MarketChange.apply_comm (apart marketId first second rfl rfl) slot.inner
          exact congrArg (fun inner => { slot with inner := inner }) inner

theorem change_side (marketId : MarketId) (isLong : Bool) (delta : FixedI128) :
    (if isLong then table.addLongOi marketId delta else table.addShortOi marketId delta) =
      table.change (some (marketId, .side isLong delta)) := by
  cases isLong <;> rfl

end MarketStateTable

def IndexedEvent.marketChange (indexed : IndexedEvent) (positions : PositionTable) :
    Option (MarketId × MarketChange) :=
  match indexed.event with
  | .positionOpened _ _ marketId isLong sizeUsd _ _ _ _ => some (marketId, .side isLong sizeUsd)
  | .positionClosed positionId _ marketId closedSizeUsd _ _ _ =>
      (positions.get positionId).map fun p => (marketId, .side p.isLong (-closedSizeUsd))
  | .fundingRateUpdated marketId newRatePerSecond fundingRate24h =>
      some (marketId, .funding newRatePerSecond fundingRate24h)
  | .marketPaused marketId => some (marketId, .pause)
  | _ => none

theorem applyEvent_markets (indexed : IndexedEvent) (db : PerfDb) :
    (db.applyEvent indexed).marketState =
      db.marketState.change (indexed.marketChange db.positions) := by
  obtain ⟨blockNumber, blockTimestamp, txHash, txIndex, logIndex, event⟩ := indexed
  cases event with
  | positionOpened positionId user market long sizeUsd =>
      exact db.marketState.change_side market long sizeUsd
  | positionClosed positionId user market closedSizeUsd exitPrice realizedPnl isFullClose =>
      simp only [PerfDb.applyEvent, IndexedEvent.marketChange]
      split
      · rename_i pos found
        rw [PositionTable.get_update, if_pos rfl] at found
        obtain ⟨p, before, rfl⟩ := Option.map_eq_some_iff.mp found
        rw [before]
        -- a close leaves the side of the position as it was
        cases isFullClose <;> exact db.marketState.change_side market p.isLong (-closedSizeUsd)
      · rename_i found
        rw [PositionTable.get_update, if_pos rfl] at found
        rw [Option.map_eq_none_iff.mp found]
        rfl
  | _ =>
      simp only [PerfDb.applyEvent, PerfDb.publishFound_toStores]
      rfl

end Perfdb
