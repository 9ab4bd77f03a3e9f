import Mathlib
import Perfdb.IndependentEvents
import Perfdb.Reorderings

set_option autoImplicit false

/-! `process_event` on several threads at once, as operations on single entries of the stores.
Each operation is made under the lock of its entry; what a thread has read stays with it. What
is published is left out. -/

namespace Perfdb

namespace Concurrent

local instance instTransOrdBalanceKey : Std.TransOrd (Address × Address) := inferInstance

local instance instTransOrdDailyKey : Std.TransOrd (Address × UInt32) := inferInstance

structure BookChange where
  marketId : MarketId
  isLong : Bool
  price : FixedI128
  orderId : Hash
  rests : Bool

def BookChange.run (change : BookChange) (book : Orderbook) : Orderbook :=
  if change.rests then
    if change.isLong then book.addBid change.price change.orderId
    else book.addAsk change.price change.orderId
  else
    if change.isLong then book.removeBid change.price change.orderId
    else book.removeAsk change.price change.orderId

/-- What one operation changes in the stores. -/
structure Effect where
  event : Option IndexedEvent := none
  position : Option (Hash × (Option Position → Option Position)) := none
  positionOfUser : Option (Address × Hash) := none
  positionOfMarket : Option (MarketId × Hash) := none
  order : Option (Hash × (Option Order → Option Order)) := none
  orderOfUser : Option (Address × Hash) := none
  book : Option BookChange := none
  user : Option (Address × (Option User → Option User)) := none
  traderStats : Option (Address × (Option TraderStats → Option TraderStats)) := none
  dailyStats : Option ((Address × UInt32) × (Option DailyStats → Option DailyStats)) := none
  market : Option (MarketId × MarketChange) := none
  balance : Option ((Address × Address) × (Option Balance → Option Balance)) := none
  tokenOfUser : Option (Address × Address) := none
  block : Option UInt64 := none

def listed {κ ι : Type} [Ord ι] [Std.TransOrd ι] (entry : Option (κ × ι)) :
    Option (κ × (Option (KeySet ι) → Option (KeySet ι))) :=
  entry.map fun named => (named.1, Table.listing named.2)

def Effect.apply (effect : Effect) (stores : Stores) : Stores where
  marketState := stores.marketState.change effect.market
  positions := {
    positions := stores.positions.positions.change effect.position
    byUser := stores.positions.byUser.change (listed effect.positionOfUser)
    byMarket := stores.positions.byMarket.change (listed effect.positionOfMarket) }
  orders := {
    orders := stores.orders.orders.change effect.order
    byUser := stores.orders.byUser.change (listed effect.orderOfUser)
    orderbooks := effect.book.elim stores.orders.orderbooks fun change =>
      modifySlot stores.orders.orderbooks change.marketId.toNat change.run }
  balances := {
    balances := stores.balances.balances.change effect.balance
    userTokens := stores.balances.userTokens.change (listed effect.tokenOfUser) }
  users := { stores.users with users := stores.users.users.change effect.user }
  checkpoint := effect.block.elim stores.checkpoint stores.checkpoint.advanceBlock
  traderStats := ⟨stores.traderStats.stats.change effect.traderStats⟩
  dailyStats := ⟨stores.dailyStats.traderDaily.change effect.dailyStats⟩
  events := effect.event.elim stores.events fun indexed =>
    stores.events.append indexed (extractEventKeys indexed.event).1
      (extractEventKeys indexed.event).2

/-- What a thread has read: a position, a balance, an order it has ended and whether that was
active. -/
structure Private where
  position : Option Position
  balance : Option Balance
  order : Option (Bool × Order)

/-- An operation on one entry of a store. -/
inductive Operation where
  | appendEvent
  | alterPosition (positionId : Hash) (update : Option Position → Option Position)
  | listPositionOfUser (user : Address) (positionId : Hash)
  | listPositionOfMarket (marketId : MarketId) (positionId : Hash)
  | alterOrder (orderId : Hash) (update : Option Order → Option Order)
  | listOrderOfUser (user : Address) (orderId : Hash)
  | rest (marketId : MarketId) (isLong : Bool) (price : FixedI128) (orderId : Hash)
  | finishOrder (orderId : Hash) (f : Order → Order)
  | leaveBook (orderId : Hash)
  | alterUser (address : Address) (update : Option User → Option User)
  | alterTraderStats (address : Address) (update : Option TraderStats → Option TraderStats)
  | alterDailyStats (address : Address) (date : UInt32)
      (update : Option DailyStats → Option DailyStats)
  | changeMarket (marketId : MarketId) (change : MarketChange)
  | readPosition (positionId : Hash)
  | closeInterest (marketId : MarketId) (closedSizeUsd : FixedI128)
  | readBalance (user token : Address)
  | listTokenOfUser (user token : Address)
  | putBalance (user token : Address) (balance : Option Balance → Balance)
  | advanceBlock

namespace Operation

/-- What it changes, given what its thread has read. -/
def effect (indexed : IndexedEvent) (read : Private) : Operation → Effect
  | appendEvent => { event := some indexed }
  | alterPosition positionId update => { position := some (positionId, update) }
  | listPositionOfUser user positionId => { positionOfUser := some (user, positionId) }
  | listPositionOfMarket marketId positionId => { positionOfMarket := some (marketId, positionId) }
  | alterOrder orderId update => { order := some (orderId, update) }
  | listOrderOfUser user orderId => { orderOfUser := some (user, orderId) }
  | rest marketId isLong price orderId => { book := some ⟨marketId, isLong, price, orderId, true⟩ }
  | finishOrder orderId f => { order := some (orderId, Option.map f) }
  | leaveBook orderId =>
      { book := read.order.bind fun (wasActive, order) =>
          if wasActive then
            some ⟨order.marketId, order.isLong, order.triggerPrice, orderId, false⟩
          else none }
  | alterUser address update => { user := some (address, update) }
  | alterTraderStats address update => { traderStats := some (address, update) }
  | alterDailyStats address date update => { dailyStats := some ((address, date), update) }
  | changeMarket marketId change => { market := some (marketId, change) }
  | readPosition _ | readBalance _ _ => {}
  | closeInterest marketId closedSizeUsd =>
      { market := read.position.map fun pos => (marketId, .side pos.isLong (-closedSizeUsd)) }
  | listTokenOfUser user token => { tokenOfUser := some (user, token) }
  | putBalance user token balance =>
      { balance := some ((user, token), fun _ => some (balance read.balance)) }
  | advanceBlock => { block := some indexed.blockNumber }

/-- What its thread knows afterwards. -/
def learn (stores : Stores) (read : Private) : Operation → Private
  | readPosition positionId => { read with position := stores.positions.get positionId }
  | readBalance user token => { read with balance := stores.balances.get user token }
  | finishOrder orderId f =>
      { read with order := (stores.orders.get orderId).map fun order =>
          (decide (order.status = .active), f order) }
  | _ => read

end Operation

/-- `ensure` of the users: the entry is made if it is missing, and then touched. -/
def ensureUser (user : Address) (now : UInt64) : List Operation :=
  [.alterUser user fun known => some (known.getD {
      address := user
      vaultAddress := none
      referralCode := none
      referredBy := none
      tier := "bronze"
      feeDiscountBps := 0
      createdAt := now
      firstTradeAt := none
      lastActiveAt := some now }),
    .alterUser user (Option.map fun u => { u with lastActiveAt := some now })]

/-- `ensure` of the trader stats. -/
def ensureTraderStats (user : Address) : Operation :=
  .alterTraderStats user fun known => some (known.getD (TraderStats.zero user))

def incrementTrade (user : Address) (volume pnl fee : FixedI128) (isWin isLiquidation : Bool)
    (timestamp : UInt64) : Operation :=
  .alterTraderStats user
    (Option.map fun s => s.addTrade volume pnl fee isWin isLiquidation timestamp)

def decrementOpenPositions (user : Address) : Operation :=
  .alterTraderStats user (Option.map fun s =>
    { s with openPositions := if s.openPositions = 0 then 0 else s.openPositions - 1 })

/-- The operations of `process_event` on the stores behind the log and the event store, in the
order of the source. -/
def updates (indexed : IndexedEvent) : List Operation :=
  match indexed.event with
  | .positionOpened positionId user marketId isLong sizeUsd leverage entryPrice collateralToken
      collateralAmount =>
      [.alterPosition positionId (fun _ => some (indexed.opened positionId user marketId isLong
        sizeUsd leverage entryPrice collateralToken collateralAmount)),
      .listPositionOfUser user positionId,
      .listPositionOfMarket marketId positionId] ++
      ensureUser user indexed.blockTimestamp ++
      [ensureTraderStats user,
      .alterTraderStats user (Option.map fun s => { s with
        totalPositions := s.totalPositions + 1
        openPositions := s.openPositions + 1 }),
      .changeMarket marketId (.side isLong sizeUsd)]
  | .positionClosed positionId user marketId closedSizeUsd exitPrice realizedPnl isFullClose =>
      [.alterPosition positionId (Option.map fun p =>
        let p := { p with
          exitPrice := some exitPrice
          realizedPnl := some realizedPnl
          closeTx := some indexed.txHash
          closeBlock := some indexed.blockNumber
          closedAt := some indexed.blockTimestamp }
        if isFullClose then { p with status := .closed }
        else { p with sizeUsd := p.sizeUsd - closedSizeUsd }),
      ensureTraderStats user,
      incrementTrade user closedSizeUsd realizedPnl 0 (decide (0 < realizedPnl)) false
        indexed.blockTimestamp] ++
      (if isFullClose then [decrementOpenPositions user] else []) ++
      [.alterDailyStats user (timestampToDate indexed.blockTimestamp) (fun
        | some s => some { s with
            volume := s.volume + closedSizeUsd
            pnl := s.pnl + realizedPnl
            trades := s.trades + 1
            fees := s.fees + 0 }
        | none => some {
            date := timestampToDate indexed.blockTimestamp
            pnl := realizedPnl
            volume := closedSizeUsd
            trades := 1
            fees := 0 }),
      .readPosition positionId,
      .closeInterest marketId closedSizeUsd]
  | .positionModified positionId newSizeUsd newCollateralUsd newCollateralAmount =>
      [.alterPosition positionId (Option.map fun p => { p with
        sizeUsd := newSizeUsd
        collateralUsd := newCollateralUsd
        collateralAmount := newCollateralAmount }),
      .readPosition positionId]
  | .orderPlaced orderId user marketId orderType isLong triggerPrice sizeUsd =>
      [.alterOrder orderId (fun _ => some {
        orderId
        userAddress := user
        marketId
        isLong
        orderType := OrderType.ofU8 orderType
        triggerPrice
        limitPrice := none
        sizeUsd
        leverage := 0
        collateralToken := Vector.replicate 20 0
        collateralAmount := 0
        status := .active
        executionPrice := none
        positionId := none
        txHash := indexed.txHash
        blockNumber := indexed.blockNumber
        createdAt := indexed.blockTimestamp
        executedAt := none }),
      .listOrderOfUser user orderId,
      .rest marketId isLong triggerPrice orderId] ++
      ensureUser user indexed.blockTimestamp
  | .orderExecuted orderId positionId executionPrice =>
      [.finishOrder orderId fun order => { order with
        status := .executed
        executionPrice := some executionPrice
        positionId := some positionId
        executedAt := some indexed.blockTimestamp },
      .leaveBook orderId]
  | .orderCancelled orderId _ =>
      [.finishOrder orderId fun order => { order with status := .cancelled },
      .leaveBook orderId]
  | .liquidation positionId user _ liquidationPrice penalty _ =>
      [.alterPosition positionId (Option.map fun p => { p with
        status := .liquidated
        exitPrice := some liquidationPrice
        closeTx := some indexed.txHash
        closeBlock := some indexed.blockNumber
        closedAt := some indexed.blockTimestamp }),
      ensureTraderStats user,
      incrementTrade user 0 (-penalty) 0 false true indexed.blockTimestamp,
      decrementOpenPositions user]
  | .fundingRateUpdated marketId newRatePerSecond fundingRate24h =>
      [.changeMarket marketId (.funding newRatePerSecond fundingRate24h)]
  | .collateralDeposited user token amount =>
      ensureUser user indexed.blockTimestamp ++
      [.readBalance user token,
      .listTokenOfUser user token,
      .putBalance user token fun existing =>
        let newAmount := (existing.map fun b => b.amount + amount).getD amount
        let newLocked := (existing.map fun b => b.locked).getD 0
        ⟨user, token, newAmount, newLocked, newAmount - newLocked⟩,
      .readBalance user token]
  | .collateralWithdrawn user token amount =>
      [.readBalance user token,
      .listTokenOfUser user token,
      .putBalance user token fun existing =>
        let newAmount := (existing.map fun b => max (b.amount - amount) 0).getD 0
        let newLocked := (existing.map fun b => b.locked).getD 0
        ⟨user, token, newAmount, newLocked, max (newAmount - newLocked) 0⟩,
      .readBalance user token]
  | .vaultCreated user vault =>
      ensureUser user indexed.blockTimestamp ++
      [.alterUser user (Option.map fun u => { u with vaultAddress := some vault })]
  | .marketPaused marketId => [.changeMarket marketId .pause]
  | .priceUpdated _ _ _ | .fundingSettled _ _ _ _ | .marketCreated _ _ _ | .adlExecuted _ _
  | .vaultDeficit _ _ => []

def operations (indexed : IndexedEvent) : List Operation :=
  .appendEvent :: updates indexed ++ [.advanceBlock]

/-- The stores and what each thread has read. -/
structure Machine (ι : Type) where
  stores : Stores
  read : ι → Private

/-- A thread makes an operation of an event it processes. -/
structure Move (ι : Type) where
  thread : ι
  indexed : IndexedEvent
  operation : Operation

variable {ι : Type} [DecidableEq ι]

def Machine.step (m : Machine ι) (move : Move ι) : Machine ι where
  stores := (move.operation.effect move.indexed (m.read move.thread)).apply m.stores
  read := Function.update m.read move.thread (move.operation.learn m.stores (m.read move.thread))

def Machine.run (m : Machine ι) (schedule : List (Move ι)) : Machine ι :=
  schedule.foldl Machine.step m

end Concurrent

end Perfdb
