import Mathlib
import Perfdb.StoreOperations

set_option autoImplicit false

namespace Perfdb

namespace Concurrent

variable {ι : Type} [DecidableEq ι]

/-- The moves of a thread that processes an event. -/
def moves (thread : ι) (indexed : IndexedEvent) : List (Move ι) :=
  (operations indexed).map fun operation => ⟨thread, indexed, operation⟩

section Changes

theorem positions_insert (table : PositionTable) (position : Position) :
    table.insert position =
      ⟨table.positions.change (some (position.positionId, fun _ => some position)),
        table.byUser.change (listed (some (position.userAddress, position.positionId))),
        table.byMarket.change (listed (some (position.marketId, position.positionId)))⟩ := by
  rw [PositionTable.insert, Table.insert_eq_change]
  rfl

theorem positions_update (table : PositionTable) (positionId : Hash) (f : Position → Position) :
    (table.update positionId f).2 =
      ⟨table.positions.change (some (positionId, Option.map f)), table.byUser, table.byMarket⟩ := by
  rw [PositionTable.update, Table.modify_eq_change]

theorem users_ensure (store : UserStore) (user : Address) (now : UInt64) :
    store.ensure user now =
      ⟨(store.users.change (some (user, fun known => some (known.getD {
        address := user
        vaultAddress := none
        referralCode := none
        referredBy := none
        tier := "bronze"
        feeDiscountBps := 0
        createdAt := now
        firstTradeAt := none
        lastActiveAt := some now })))).change
          (some (user, Option.map fun u => { u with lastActiveAt := some now })),
        store.byReferralCode⟩ := by
  rw [UserStore.ensure, Table.modify_eq_change, Table.insertIfNew_eq_change]

theorem users_setVault (store : UserStore) (user vault : Address) :
    store.setVault user vault =
      ⟨store.users.change (some (user, Option.map fun u => { u with vaultAddress := some vault })),
        store.byReferralCode⟩ := by
  rw [UserStore.setVault, Table.modify_eq_change]

theorem traderStats_ensure (store : TraderStatsStore) (user : Address) :
    store.ensure user = ⟨store.stats.change
      (some (user, fun known => some (known.getD (TraderStats.zero user))))⟩ := by
  rw [TraderStatsStore.ensure, Table.insertIfNew_eq_change]

theorem traderStats_update (store : TraderStatsStore) (user : Address)
    (f : TraderStats → TraderStats) :
    (store.update user f).2 = ⟨store.stats.change (some (user, Option.map f))⟩ := by
  rw [TraderStatsStore.update, Table.modify_eq_change]

theorem orders_insert (table : OrderTable) (order : Order) :
    table.insert order =
      ⟨table.orders.change (some (order.orderId, fun _ => some order)),
        table.byUser.change (listed (some (order.userAddress, order.orderId))),
        if order.status = .active then
          modifySlot table.orderbooks order.marketId.toNat (BookChange.run
            ⟨order.marketId, order.isLong, order.triggerPrice, order.orderId, true⟩)
        else table.orderbooks⟩ := by
  rw [OrderTable.insert, Table.insert_eq_change]
  rfl

theorem orders_finish (table : OrderTable) (orderId : Hash) (f : Order → Order) :
    (table.finish orderId f).2 =
      ⟨table.orders.change (some (orderId, Option.map f)), table.byUser,
        (((table.get orderId).map fun order => (decide (order.status = .active), f order)).bind
          fun (wasActive, order) =>
            if wasActive then
              some (⟨order.marketId, order.isLong, order.triggerPrice, orderId, false⟩ : BookChange)
            else none).elim table.orderbooks fun change =>
              modifySlot table.orderbooks change.marketId.toNat change.run⟩ := by
  obtain ⟨orders, byUser⟩ := IndexedEvent.finish_change table orderId f
  rw [← orders, OrderTable.finish, OrderTable.get]
  cases table.orders[orderId]? with
  | none => rfl
  | some order =>
      simp only [Option.map_some, Option.bind_some]
      by_cases active : order.status = .active
      · simp only [active, if_true, decide_true]
        rfl
      · simp only [active, if_false, decide_false, Bool.false_eq_true]
        rfl

theorem balances_setRaw (cache : BalanceCache) (user token : Address)
    (amount locked available : FixedI128) :
    cache.setRaw user token amount locked available =
      ⟨cache.balances.change
          (some ((user, token), fun _ => some ⟨user, token, amount, locked, available⟩)),
        cache.userTokens.change (listed (some (user, token)))⟩ := by
  rw [BalanceCache.setRaw, BalanceCache.set, Table.insert_eq_change]
  rfl

end Changes

section Alone

/-- A single thread's operation on the stores and what it has read. -/
def alone (indexed : IndexedEvent) (s : Stores × Private) (operation : Operation) :
    Stores × Private :=
  ((operation.effect indexed s.2).apply s.1, operation.learn s.1 s.2)

theorem run_alone (thread : ι) (indexed : IndexedEvent) (made : List Operation) (m : Machine ι) :
    (m.run (made.map fun operation => ⟨thread, indexed, operation⟩)).stores =
      (made.foldl (alone indexed) (m.stores, m.read thread)).1 := by
  induction made generalizing m with
  | nil => rfl
  | cons operation made ih =>
      refine (ih (m.step ⟨thread, indexed, operation⟩)).trans ?_
      simp only [Machine.step, Function.update_self]
      rfl

theorem change_none {κ α : Type} [Ord κ] [Std.TransOrd κ] (table : Table κ α) :
    table.change none = table := rfl

theorem changeMarket_none (table : MarketStateTable) : table.change none = table := rfl

theorem operations_alone (indexed : IndexedEvent) (db : PerfDb) (read : Private) :
    ((operations indexed).foldl (alone indexed) (db.toStores, read)).1 =
      (db.applyEvent indexed).toStores := by
  obtain ⟨blockNumber, blockTimestamp, txHash, txIndex, logIndex, event⟩ := indexed
  obtain ⟨stores, _⟩ := db
  obtain ⟨marketState, positions, orders, balances, users, checkpoint, traderStats, dailyStats,
    events⟩ := stores
  cases event with
  | positionClosed positionId user marketId closedSizeUsd exitPrice realizedPnl isFullClose =>
      cases isFullClose <;>
      · simp only [operations, updates, ensureTraderStats, incrementTrade, decrementOpenPositions,
          List.cons_append, List.nil_append, List.foldl_cons, List.foldl_nil, alone,
          Operation.effect, Operation.learn, Effect.apply, listed, Option.map_none, change_none,
          changeMarket_none, Option.elim_none, Option.elim_some, if_true, if_false, Bool.false_eq_true]
        simp only [PerfDb.applyEvent, TraderStatsStore.incrementTrade,
          TraderStatsStore.decrementOpenPositions, traderStats_ensure, traderStats_update,
          positions_update, MarketStateTable.change_side, if_true, if_false, Bool.false_eq_true]
        split <;> rename_i found <;> rw [found] <;> rfl
  | _ =>
      simp only [operations, updates, ensureUser, ensureTraderStats, incrementTrade,
        decrementOpenPositions, List.cons_append, List.nil_append, List.foldl_cons,
        List.foldl_nil, alone, Operation.effect, Operation.learn, Effect.apply, listed,
        Option.map_none, change_none, changeMarket_none, Option.elim_none, Option.elim_some]
      simp only [PerfDb.applyEvent, PerfDb.publishFound_toStores,
        TraderStatsStore.incrementOpenPositions, TraderStatsStore.incrementTrade,
        TraderStatsStore.decrementOpenPositions, traderStats_ensure, traderStats_update,
        positions_insert, positions_update, users_ensure, users_setVault,
        MarketStateTable.change_side, orders_insert, if_true, OrderTable.execute, OrderTable.cancel,
        orders_finish, balances_setRaw]
      try rfl

theorem run_moves (m : Machine ι) (thread : ι) (indexed : IndexedEvent) (db : PerfDb)
    (same : db.toStores = m.stores) :
    (m.run (moves thread indexed)).stores = (db.applyEvent indexed).toStores := by
  rw [moves, run_alone, ← same]
  exact operations_alone indexed db _

end Alone

section Names

/-- The keys of an operation are names of its event. -/
def Operation.Within (event : Event) : Operation → Prop
  | .alterPosition positionId _ | .readPosition positionId => positionId ∈ event.positionIds
  | .listPositionOfUser user _ | .listOrderOfUser user _ | .alterUser user _
  | .alterTraderStats user _ | .alterDailyStats user _ _ | .readBalance user _
  | .listTokenOfUser user _ | .putBalance user _ _ => user ∈ event.users
  | .alterOrder orderId _ | .rest _ _ _ orderId | .finishOrder orderId _
  | .leaveBook orderId => orderId ∈ event.orderIds
  | .changeMarket marketId change => change.isFunding = true → event.fundedMarket = some marketId
  | .appendEvent | .advanceBlock | .listPositionOfMarket _ _ | .closeInterest _ _ => True

theorem operations_within (indexed : IndexedEvent) :
    ∀ operation ∈ operations indexed, operation.Within indexed.event := by
  obtain ⟨blockNumber, blockTimestamp, txHash, txIndex, logIndex, event⟩ := indexed
  cases event with
  | positionClosed _ _ _ _ _ _ isFullClose =>
      cases isFullClose <;>
        simp [operations, updates, Operation.Within, ensureTraderStats, incrementTrade,
          decrementOpenPositions, Event.users, Event.positionIds]
  | positionOpened _ _ _ isLong =>
      cases isLong <;>
        simp [operations, updates, Operation.Within, ensureUser, ensureTraderStats, Event.users,
          Event.positionIds, MarketChange.side, MarketChange.isFunding]
  | _ =>
      simp [operations, updates, Operation.Within, ensureUser, ensureTraderStats, incrementTrade,
        decrementOpenPositions, Event.users, Event.positionIds, Event.orderIds,
        Event.fundedMarket, MarketChange.isFunding]

structure Effect.Named (effect : Effect) (event : Event) : Prop where
  position : ∀ key ∈ effect.position.map Prod.fst, key ∈ event.positionIds
  positionOfUser : ∀ key ∈ (listed effect.positionOfUser).map Prod.fst, key ∈ event.users
  order : ∀ key ∈ effect.order.map Prod.fst, key ∈ event.orderIds
  orderOfUser : ∀ key ∈ (listed effect.orderOfUser).map Prod.fst, key ∈ event.users
  book : ∀ change ∈ effect.book, change.orderId ∈ event.orderIds
  user : ∀ key ∈ effect.user.map Prod.fst, key ∈ event.users
  traderStats : ∀ key ∈ effect.traderStats.map Prod.fst, key ∈ event.users
  dailyStats : ∀ key ∈ effect.dailyStats.map Prod.fst, key.1 ∈ event.users
  market : ∀ named ∈ effect.market, named.2.isFunding = true → event.fundedMarket = some named.1
  balance : ∀ key ∈ effect.balance.map Prod.fst, key.1 ∈ event.users
  tokenOfUser : ∀ key ∈ (listed effect.tokenOfUser).map Prod.fst, key ∈ event.users

theorem Operation.Within.effect_named {event : Event} {operation : Operation}
    (within : operation.Within event) (indexed : IndexedEvent) (read : Private) :
    (operation.effect indexed read).Named event := by
  cases operation with
  | leaveBook orderId =>
      refine ⟨?_, ?_, ?_, ?_, fun change left => ?_, ?_, ?_, ?_, ?_, ?_, ?_⟩ <;>
        try simp [Operation.effect, listed]
      obtain ⟨⟨wasActive, order⟩, _, found⟩ := Option.bind_eq_some_iff.mp left
      cases wasActive with
      | false => cases found
      | true =>
          obtain rfl := Option.some.inj found
          exact within
  | closeInterest marketId closedSizeUsd =>
      refine ⟨?_, ?_, ?_, ?_, ?_, ?_, ?_, ?_, fun named is funding => ?_, ?_, ?_⟩ <;>
        try simp [Operation.effect, listed]
      obtain ⟨p, _, rfl⟩ := Option.map_eq_some_iff.mp is
      cases side : p.isLong <;> simp [MarketChange.side, side, MarketChange.isFunding] at funding
  | changeMarket marketId change =>
      refine ⟨?_, ?_, ?_, ?_, ?_, ?_, ?_, ?_, ?_, ?_, ?_⟩ <;>
        simp_all [Operation.effect, listed, Operation.Within]
  | _ =>
      refine ⟨?_, ?_, ?_, ?_, ?_, ?_, ?_, ?_, ?_, ?_, ?_⟩ <;>
        simp_all [Operation.effect, listed, Operation.Within]

end Names

section Outcome

theorem sameOutcome_refl (stores : Stores) : stores.SameOutcome stores :=
  ⟨rfl, rfl, rfl, fun _ _ _ => rfl, rfl, rfl, rfl, rfl, rfl⟩

theorem sameOutcome_symm {one other : Stores} (same : one.SameOutcome other) :
    other.SameOutcome one where
  positions := same.positions.symm
  orders := same.orders.symm
  ordersOfUser := same.ordersOfUser.symm
  levels marketId isLong price := (same.levels marketId isLong price).symm
  balances := same.balances.symm
  users := same.users.symm
  traderStats := same.traderStats.symm
  dailyStats := same.dailyStats.symm
  markets := same.markets.symm

theorem sameOutcome_trans {one other third : Stores} (first : one.SameOutcome other)
    (second : other.SameOutcome third) : one.SameOutcome third where
  positions := first.positions.trans second.positions
  orders := first.orders.trans second.orders
  ordersOfUser := first.ordersOfUser.trans second.ordersOfUser
  levels marketId isLong price :=
    (first.levels marketId isLong price).trans (second.levels marketId isLong price)
  balances := first.balances.trans second.balances
  users := first.users.trans second.users
  traderStats := first.traderStats.trans second.traderStats
  dailyStats := first.dailyStats.trans second.dailyStats
  markets := first.markets.trans second.markets

def BookChange.level (change : BookChange) (marketId : MarketId) (isLong : Bool)
    (price : FixedI128) : LevelChange :=
  if change.marketId = marketId ∧ change.isLong = isLong ∧ change.price = price ∧
      marketId.toNat < marketCount then
    if change.rests then .rests change.orderId else .leaves change.orderId
  else .keep

def Effect.level (effect : Effect) (marketId : MarketId) (isLong : Bool) (price : FixedI128) :
    LevelChange :=
  effect.book.elim .keep fun change => change.level marketId isLong price

theorem BookChange.entry_run (change : BookChange) (book : Orderbook) (isLong : Bool)
    (price : FixedI128) : (change.run book).entry isLong price =
      if change.isLong = isLong ∧ change.price = price then
        (if change.rests then LevelChange.rests change.orderId
          else .leaves change.orderId).apply (book.entry isLong price)
      else book.entry isLong price := by
  cases rests : change.rests with
  | false =>
      simp only [BookChange.run, rests, Bool.false_eq_true, if_false]
      exact Orderbook.entry_remove _ _ _ _ _ book
  | true =>
      simp only [BookChange.run, rests, if_true]
      exact Orderbook.entry_add _ _ _ _ _ book

theorem Effect.apply_level (effect : Effect) (stores : Stores) (marketId : MarketId)
    (isLong : Bool) (price : FixedI128) :
    (effect.apply stores).orders.levelSet marketId isLong price =
      (effect.level marketId isLong price).apply
        (stores.orders.levelSet marketId isLong price) := by
  cases found : effect.book with
  | none =>
      simp only [Effect.apply, Effect.level, found, Option.elim_none]
      rfl
  | some change =>
      have changed := levelSet_modifySlot isLong price stores.orders marketId change.marketId
        change.run
      simp only [Effect.apply, Effect.level, found, Option.elim_some]
      refine Eq.trans ?_ (changed.trans ?_)
      · rfl
      · by_cases here : change.marketId = marketId
        · rw [if_pos here]
          by_cases inside : marketId.toNat < marketCount
          · have present : stores.orders.orderbook marketId =
                some (stores.orders.orderbooks[marketId.toNat]) :=
              Vector.getElem?_eq_getElem inside
            simp only [OrderTable.levelSet, present, Option.bind_some, BookChange.entry_run,
              BookChange.level, here, inside, and_true, true_and]
            split <;> rfl
          · have absent : stores.orders.orderbook marketId = none :=
              Vector.getElem?_eq_none (Nat.le_of_not_lt inside)
            simp only [OrderTable.levelSet, absent, Option.bind_none, BookChange.level, inside,
              and_false, if_false]
            rfl
        · rw [if_neg here, BookChange.level, if_neg fun all => here all.1]
          rfl

/-- A level is changed in the order of the change of its book. -/
theorem Effect.Named.level {effect : Effect} {event : Event} (named : effect.Named event)
    {marketId : MarketId} {isLong : Bool} {price : FixedI128} {orderId : Hash}
    (changes : (effect.level marketId isLong price).orderId = some orderId) :
    orderId ∈ event.orderIds := by
  cases found : effect.book with
  | none =>
      rw [Effect.level, found] at changes
      cases changes
  | some change =>
      have same : change.orderId = orderId := by
        rw [Effect.level, found, Option.elim_some, BookChange.level] at changes
        split at changes
        · cases rests : change.rests <;> rw [rests] at changes <;> exact Option.some.inj changes
        · cases changes
      exact same ▸ named.book change found

/-- Stores with the same outcome keep it under the same effect. -/
theorem Effect.apply_congr (effect : Effect) {left right : Stores}
    (same : left.SameOutcome right) : (effect.apply left).SameOutcome (effect.apply right) where
  positions := by
    simp only [Effect.apply, same.positions]
  orders := by
    simp only [Effect.apply, same.orders]
  ordersOfUser := by
    simp only [Effect.apply, same.ordersOfUser]
  levels marketId isLong price := by
    rw [Effect.apply_level, Effect.apply_level, same.levels]
  balances := by
    simp only [Effect.apply, same.balances]
  users := by
    simp only [Effect.apply, same.users]
  traderStats := by
    simp only [Effect.apply, same.traderStats]
  dailyStats := by
    simp only [Effect.apply, same.dailyStats]
  markets := by
    simp only [Effect.apply, same.markets]

theorem Operation.learn_congr (operation : Operation) (read : Private) {left right : Stores}
    (same : left.SameOutcome right) : operation.learn left read = operation.learn right read := by
  cases operation with
  | finishOrder orderId f =>
      simp only [Operation.learn, OrderTable.get, same.orders]
  | _ => simp only [Operation.learn, same.positions, same.balances]

section Commute

variable {one other : Effect} {event others : Event} (named : one.Named event)
  (namedOther : other.Named others) (independent : event.Independent others)
include named namedOther independent

theorem Effect.apply_comm (stores : Stores) :
    (other.apply (one.apply stores)).SameOutcome (one.apply (other.apply stores)) where
  positions := by
    simp only [Effect.apply, PositionTable.mk.injEq]
    refine ⟨?_, ?_, ?_⟩
    · exact Table.change_comm_of_ne _ (IndexedEvent.apart_of_named independent.positions
        named.position namedOther.position)
    · exact Table.change_comm_of_ne _ (IndexedEvent.apart_of_named independent.users
        named.positionOfUser namedOther.positionOfUser)
    · refine Table.change_comm _ fun key first second lists list ids => ?_
      obtain ⟨_, _, same⟩ := Option.map_eq_some_iff.mp lists
      obtain ⟨_, _, same'⟩ := Option.map_eq_some_iff.mp list
      obtain ⟨_, rfl⟩ := Prod.mk.inj same
      obtain ⟨_, rfl⟩ := Prod.mk.inj same'
      exact Table.listing_comm _ _ ids
  orders := Table.change_comm_of_ne _ (IndexedEvent.apart_of_named independent.orders
    named.order namedOther.order)
  ordersOfUser := Table.change_comm_of_ne _ (IndexedEvent.apart_of_named independent.users
    named.orderOfUser namedOther.orderOfUser)
  levels marketId isLong price := by
    simp only [Effect.apply_level]
    refine LevelChange.apply_comm (fun orderId here there => ?_) _
    exact independent.orders (named.level here) (namedOther.level there)
  balances := by
    simp only [Effect.apply, BalanceCache.mk.injEq]
    exact ⟨Table.change_comm_of_ne _ (IndexedEvent.apart_of_named independent.users
        named.balance namedOther.balance),
      Table.change_comm_of_ne _ (IndexedEvent.apart_of_named independent.users
        named.tokenOfUser namedOther.tokenOfUser)⟩
  users := by
    simp only [Effect.apply, UserStore.mk.injEq, and_true]
    exact Table.change_comm_of_ne _ (IndexedEvent.apart_of_named independent.users
      named.user namedOther.user)
  traderStats := congrArg TraderStatsStore.mk (Table.change_comm_of_ne _
    (IndexedEvent.apart_of_named independent.users named.traderStats namedOther.traderStats))
  dailyStats := congrArg DailyStatsStore.mk (Table.change_comm_of_ne _
    (IndexedEvent.apart_of_named independent.users named.dailyStats namedOther.dailyStats))
  markets := by
    refine MarketStateTable.change_comm _ fun marketId first second is_first is_second funds => ?_
    by_contra both
    exact independent.funding marketId (named.market _ is_first funds)
      (namedOther.market _ is_second (Bool.not_eq_false _ ▸ both))

omit namedOther in
/-- What a thread reads is not what an independent event changes. -/
theorem Operation.learn_after {operation : Operation} (within : operation.Within others)
    (stores : Stores) (read : Private) :
    operation.learn (one.apply stores) read = operation.learn stores read := by
  cases operation with
  | readPosition positionId =>
      have apart : positionId ∉ one.position.map Prod.fst := fun here =>
        independent.positions (named.position positionId here) within
      exact congrArg (fun found => { read with position := found })
        (Table.getElem?_change_of_ne _ apart)
  | readBalance user token =>
      have apart : (user, token) ∉ one.balance.map Prod.fst := fun here =>
        independent.users (named.balance (user, token) here) within
      exact congrArg (fun found => { read with balance := found })
        (Table.getElem?_change_of_ne _ apart)
  | finishOrder orderId f =>
      have apart : orderId ∉ one.order.map Prod.fst := fun here =>
        independent.orders (named.order orderId here) within
      exact congrArg (fun found : Option Order => { read with
        order := found.map fun (order : Order) =>
          (decide (order.status = OrderStatus.active), f order) })
        (Table.getElem?_change_of_ne _ apart)
  | _ => rfl

end Commute

end Outcome

end Concurrent

end Perfdb
