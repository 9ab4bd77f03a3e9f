import Mathlib
import Perfdb.EventEffects
import Perfdb.SnapshotRestore

set_option autoImplicit false

namespace Perfdb

namespace Threads

/-- A call that `process_event` makes; what it publishes is left out, no store holds it.
Only one thread processes events, so a store that is read to be set again is one call. -/
inductive Call where
  | eventsAppend
  | positionsInsert (pos : Position)
  | positionsUpdate (positionId : Hash) (f : Position → Position)
  | usersEnsure (user : Address)
  | usersSetVault (user vault : Address)
  | traderStatsEnsure (user : Address)
  | incrementOpenPositions (user : Address)
  | decrementOpenPositions (user : Address)
  | incrementTrade (user : Address) (volume pnl fee : FixedI128) (isWin isLiquidation : Bool)
  | accumulateTrade (user : Address) (date : UInt32) (volume pnl fee : FixedI128)
  | addOi (isLong : Bool) (marketId : MarketId) (delta : FixedI128)
  | closeOi (positionId : Hash) (marketId : MarketId) (closedSizeUsd : FixedI128)
  | ordersInsert (order : Order)
  | ordersExecute (orderId positionId : Hash) (executionPrice : FixedI128)
  | ordersCancel (orderId : Hash)
  | setFundingRate (marketId : MarketId) (ratePerSecond rate24h : FixedI128)
  | setPaused (marketId : MarketId)
  | deposit (user token : Address) (amount : FixedI128)
  | withdraw (user token : Address) (amount : FixedI128)
  | advanceBlock

namespace Call

def onBalances : Call → BalanceCache → BalanceCache
  | .deposit user token amount, cache =>
      let existing := cache.get user token
      let newAmount := (existing.map fun (b : Balance) => b.amount + amount).getD amount
      let newLocked := (existing.map fun (b : Balance) => b.locked).getD 0
      cache.setRaw user token newAmount newLocked (newAmount - newLocked)
  | .withdraw user token amount, cache =>
      let existing := cache.get user token
      let newAmount := (existing.map fun (b : Balance) => max (b.amount - amount) 0).getD 0
      let newLocked := (existing.map fun (b : Balance) => b.locked).getD 0
      cache.setRaw user token newAmount newLocked (max (newAmount - newLocked) 0)
  | _, cache => cache

def onTraderStats (indexed : IndexedEvent) : Call → TraderStatsStore → TraderStatsStore
  | .traderStatsEnsure user, store => store.ensure user
  | .incrementOpenPositions user, store => store.incrementOpenPositions user
  | .decrementOpenPositions user, store => store.decrementOpenPositions user
  | .incrementTrade user volume pnl fee isWin isLiquidation, store =>
      (store.incrementTrade user volume pnl fee isWin isLiquidation indexed.blockTimestamp).2
  | _, store => store

/-- A call on a store while the event is processed. -/
def update (indexed : IndexedEvent) (call : Call) (stores : Stores) : Stores :=
  match call with
  | .eventsAppend =>
      let (marketId, trader) := extractEventKeys indexed.event
      { stores with events := stores.events.append indexed marketId trader }
  | .positionsInsert pos => { stores with positions := stores.positions.insert pos }
  | .positionsUpdate positionId f =>
      { stores with positions := (stores.positions.update positionId f).2 }
  | .usersEnsure user =>
      { stores with users := stores.users.ensure user indexed.blockTimestamp }
  | .usersSetVault user vault => { stores with users := stores.users.setVault user vault }
  | .traderStatsEnsure _ | .incrementOpenPositions _ | .decrementOpenPositions _
  | .incrementTrade _ _ _ _ _ _ =>
      { stores with traderStats := call.onTraderStats indexed stores.traderStats }
  | .accumulateTrade user date volume pnl fee =>
      { stores with dailyStats := stores.dailyStats.accumulateTrade user date volume pnl fee }
  | .addOi isLong marketId delta =>
      { stores with
        marketState :=
          if isLong then stores.marketState.addLongOi marketId delta
          else stores.marketState.addShortOi marketId delta }
  | .closeOi positionId marketId closedSizeUsd =>
      match stores.positions.get positionId with
      | some pos =>
          { stores with
            marketState :=
              if pos.isLong then stores.marketState.addLongOi marketId (-closedSizeUsd)
              else stores.marketState.addShortOi marketId (-closedSizeUsd) }
      | none => stores
  | .ordersInsert order => { stores with orders := stores.orders.insert order }
  | .ordersExecute orderId positionId executionPrice =>
      { stores with orders := (stores.orders.execute orderId executionPrice positionId
        indexed.blockTimestamp).2 }
  | .ordersCancel orderId => { stores with orders := (stores.orders.cancel orderId).2 }
  | .setFundingRate marketId ratePerSecond rate24h =>
      { stores with
        marketState := stores.marketState.setFundingRate marketId ratePerSecond rate24h }
  | .setPaused marketId =>
      { stores with marketState := stores.marketState.setPaused marketId true }
  | .deposit _ _ _ | .withdraw _ _ _ =>
      { stores with balances := call.onBalances stores.balances }
  | .advanceBlock =>
      { stores with checkpoint := stores.checkpoint.advanceBlock indexed.blockNumber }

end Call

/-- The store updates of `process_event`, in the order of the source. -/
def updates (indexed : IndexedEvent) : List Call :=
  match indexed.event with
  | .positionOpened positionId user marketId isLong sizeUsd leverage entryPrice collateralToken
      collateralAmount =>
      [.positionsInsert (indexed.opened positionId user marketId isLong sizeUsd leverage entryPrice
        collateralToken collateralAmount),
      .usersEnsure user,
      .traderStatsEnsure user,
      .incrementOpenPositions user,
      .addOi isLong marketId sizeUsd]
  | .positionClosed positionId user marketId closedSizeUsd exitPrice realizedPnl isFullClose =>
      [.positionsUpdate positionId fun p =>
        let p := { p with
          exitPrice := some exitPrice
          realizedPnl := some realizedPnl
          closeTx := some indexed.txHash
          closeBlock := some indexed.blockNumber
          closedAt := some indexed.blockTimestamp }
        if isFullClose then { p with status := .closed }
        else { p with sizeUsd := p.sizeUsd - closedSizeUsd },
      .traderStatsEnsure user,
      .incrementTrade user closedSizeUsd realizedPnl 0 (decide (0 < realizedPnl)) false] ++
      (if isFullClose then [.decrementOpenPositions user] else []) ++
      [.accumulateTrade user (timestampToDate indexed.blockTimestamp) closedSizeUsd realizedPnl 0,
      .closeOi positionId marketId closedSizeUsd]
  | .positionModified positionId newSizeUsd newCollateralUsd newCollateralAmount =>
      [.positionsUpdate positionId fun p => { p with
        sizeUsd := newSizeUsd
        collateralUsd := newCollateralUsd
        collateralAmount := newCollateralAmount }]
  | .orderPlaced orderId user marketId orderType isLong triggerPrice sizeUsd =>
      [.ordersInsert {
        orderId
        userAddress := user
        marketId
        isLong
        orderType := OrderType.ofU8 orderType
        triggerPrice
        limitPrice := none
        sizeUsd
        leverage := 0
        collateralToken := Vector.replicate 20 0
        collateralAmount := 0
        status := .active
        executionPrice := none
        positionId := none
        txHash := indexed.txHash
        blockNumber := indexed.blockNumber
        createdAt := indexed.blockTimestamp
        executedAt := none },
      .usersEnsure user]
  | .orderExecuted orderId positionId executionPrice =>
      [.ordersExecute orderId positionId executionPrice]
  | .orderCancelled orderId _ => [.ordersCancel orderId]
  | .liquidation positionId user _ liquidationPrice penalty _ =>
      [.positionsUpdate positionId fun p => { p with
        status := .liquidated
        exitPrice := some liquidationPrice
        closeTx := some indexed.txHash
        closeBlock := some indexed.blockNumber
        closedAt := some indexed.blockTimestamp },
      .traderStatsEnsure user,
      .incrementTrade user 0 (-penalty) 0 false true,
      .decrementOpenPositions user]
  | .fundingRateUpdated marketId newRatePerSecond fundingRate24h =>
      [.setFundingRate marketId newRatePerSecond fundingRate24h]
  | .collateralDeposited user token amount => [.usersEnsure user, .deposit user token amount]
  | .collateralWithdrawn user token amount => [.withdraw user token amount]
  | .vaultCreated user vault => [.usersEnsure user, .usersSetVault user vault]
  | .marketPaused marketId => [.setPaused marketId]
  | .priceUpdated _ _ _ | .fundingSettled _ _ _ _ | .marketCreated _ _ _ | .adlExecuted _ _
  | .vaultDeficit _ _ => []

/-- What `process_event` does behind the log. -/
def calls (indexed : IndexedEvent) : List Call :=
  .eventsAppend :: updates indexed ++ [.advanceBlock]

theorem applyEvent_calls (indexed : IndexedEvent) (db : PerfDb) :
    (calls indexed).foldl (fun stores call => call.update indexed stores) db.toStores =
      (db.applyEvent indexed).toStores := by
  obtain ⟨blockNumber, blockTimestamp, txHash, txIndex, logIndex, event⟩ := indexed
  cases event with
  | positionClosed positionId user marketId closedSizeUsd exitPrice realizedPnl isFullClose =>
      cases isFullClose <;>
      · simp only [calls, updates, PerfDb.applyEvent, List.cons_append, List.foldl_cons,
          List.foldl_nil, Call.update, Bool.false_eq_true, if_false, if_true, List.nil_append]
        generalize PositionTable.get _ positionId = found
        cases found <;> rfl
  | positionOpened positionId user marketId isLong => cases isLong <;> rfl
  | positionModified | orderExecuted | orderCancelled | collateralDeposited
  | collateralWithdrawn =>
      simp only [PerfDb.applyEvent, PerfDb.publishFound_toStores]
      rfl
  | _ => rfl

/-- The reads of `snapshot`, each atomic. -/
inductive Read where
  | checkpoint
  | dailyStats
  | marketStates
  | positions
  | orders
  | balances
  | users
  | traderStats
  | timestamp
  deriving DecidableEq

namespace Read

/-- In the order of the source. -/
def all : List Read :=
  [.checkpoint, .dailyStats, .marketStates, .positions, .orders, .balances, .users, .traderStats,
    .timestamp]

/-- A read fills a field of the snapshot. The daily stats are read with the traders they are
of. -/
def run (order : Iteration) (stores : Stores) (read : Read) (draft : StateSnapshot) :
    StateSnapshot :=
  match read with
  | .checkpoint => { draft with checkpoint := .ofCheckpoint stores.checkpoint.snapshot }
  | .dailyStats =>
      { draft with
        dailyStats := (stores.traderStats.all order).flatMap fun ts =>
          (stores.dailyStats.traderDailyHistory order ts.address 1000).map fun ds =>
            ⟨ts.address, ds⟩ }
  | .marketStates =>
      { draft with
        marketStates := (List.range marketCount).filterMap fun i =>
          (stores.marketState.snapshot i.toUInt16).map SnapshotMarketState.ofSnapshot }
  | .positions => { draft with positions := stores.positions.all order }
  | .orders => { draft with orders := stores.orders.all order }
  | .balances => { draft with balances := stores.balances.all order }
  | .users => { draft with users := stores.users.all order }
  | .traderStats => { draft with traderStats := stores.traderStats.all order }
  | .timestamp => { draft with snapshotTimestamp := stores.checkpoint.lastBlockTimestamp }

/-- At rest the reads make the snapshot of the stores. -/
theorem run_all (order : Iteration) (stores : Stores) (draft : StateSnapshot) :
    all.foldl (fun draft read => read.run order stores draft) draft =
      stores.stateSnapshot order := rfl

end Read

/-- A step of the thread that processes events or of the one that takes a snapshot. -/
inductive Step where
  | walAppend (indexed : IndexedEvent)
  | call (indexed : IndexedEvent) (call : Call)
  | read (read : Read)
  | writeSnapshot

/-- A database and what a snapshot that is being taken has read of it. -/
structure Observed where
  running : Running
  draft : StateSnapshot

abbrev ThreadM := EStateM (Abort PerfDbError) Observed

def onRunning {α : Type} (operation : EngineM α) : ThreadM α := fun o =>
  match operation o.running with
  | .ok value r => .ok value { o with running := r }
  | .error abort r => .error abort { o with running := r }

namespace Step

def run (fmts : Formats) (order : Iteration) : Step → ThreadM Unit
  | .walAppend indexed => onRunning (onWal (Wal.append fmts.wal (.indexedEvent indexed)))
  | .call indexed made =>
      onRunning (modify (Running.mapDb fun db =>
        { db with toStores := made.update indexed db.toStores }))
  | .read wanted =>
      modify fun o => { o with draft := wanted.run order o.running.db.toStores o.draft }
  | .writeSnapshot => do
      let o ← get
      let _ ← onRunning (onSnapshots
        (Snapshot.writeSnapshot fmts.snapshot o.running.db.config.snapshotsDir o.draft))
      pure ()

def processes : Step → Bool
  | .walAppend _ | .call _ _ => true
  | .read _ | .writeSnapshot => false

end Step

def runSteps (fmts : Formats) (order : Iteration) : List Step → ThreadM Unit
  | [] => pure ()
  | step :: steps => do
      step.run fmts order
      runSteps fmts order steps

/-- The steps of `process_event`. -/
def processSteps (indexed : IndexedEvent) : List Step :=
  .walAppend indexed :: (calls indexed).map (Step.call indexed)

/-- The steps of `snapshot`. -/
def snapshotSteps : List Step := Read.all.map Step.read ++ [.writeSnapshot]

section Alone

variable {fmts : Formats} {order : Iteration}

theorem runSteps_append_ok {front back : List Step} {o middle last : Observed}
    (first : runSteps fmts order front o = .ok () middle)
    (rest : runSteps fmts order back middle = .ok () last) :
    runSteps fmts order (front ++ back) o = .ok () last := by
  induction front generalizing o with
  | nil =>
      obtain ⟨_, rfl⟩ := EStateM.Result.ok.inj first
      exact rest
  | cons step front ih =>
      obtain ⟨_, next, head, tail⟩ := bind_ok first
      exact (bind_of_ok head).trans (ih tail)

theorem runSteps_calls (indexed : IndexedEvent) (made : List Call) (o : Observed) :
    runSteps fmts order (made.map (Step.call indexed)) o =
      .ok () { o with
        running := o.running.mapDb fun db => { db with
          toStores := made.foldl (fun stores call => call.update indexed stores) db.toStores } } := by
  induction made generalizing o with
  | nil => rfl
  | cons call made ih => exact ih _

/-- Without a snapshot between them the steps of an event are `process_event`, but for what
it publishes. -/
theorem processSteps_run {indexed : IndexedEvent} {o : Observed} {t : Running}
    (run : PerfDb.processEvent fmts.wal indexed o.running = .ok () t) :
    ∃ last, runSteps fmts order (processSteps indexed) o = .ok () last ∧
      last.draft = o.draft ∧ last.running.log = t.log ∧ last.running.snapshots = t.snapshots ∧
      last.running.db.wal = t.db.wal ∧ last.running.db.toStores = t.db.toStores := by
  obtain ⟨s, appended, rfl⟩ := PerfDb.processEvent_ok run
  have logged : Step.run fmts order (.walAppend indexed) o =
      .ok () { o with running := o.running.setWalState s } := by
    simp only [Step.run, onRunning, onWal_of_ok appended]
  refine ⟨_, (bind_of_ok logged).trans (runSteps_calls indexed _ _), rfl, rfl, rfl, ?_, ?_⟩
  · exact (PerfDb.applyEvent_shell indexed (o.running.setWalState s).db).wal.symm
  · exact applyEvent_calls indexed (o.running.setWalState s).db

/-- Without events between them the steps of a snapshot are `snapshot`. -/
theorem snapshotSteps_run {o : Observed} {path : String} {t : Running}
    (run : PerfDb.snapshot fmts.snapshot order o.running = .ok path t) :
    runSteps fmts order snapshotSteps o =
      .ok () ⟨t, o.running.db.stateSnapshot order⟩ := by
  have reads (wanted : List Read) (o : Observed) :
      runSteps fmts order (wanted.map Step.read) o =
        .ok () { o with
          draft := wanted.foldl (fun draft read => read.run order o.running.db.toStores draft)
            o.draft } := by
    induction wanted generalizing o with
    | nil => rfl
    | cons read wanted ih => exact ih _
  refine runSteps_append_ok (reads Read.all o) ?_
  rw [Read.run_all]
  have written : onRunning (onSnapshots (Snapshot.writeSnapshot fmts.snapshot
      o.running.db.config.snapshotsDir (o.running.db.stateSnapshot order)))
      ⟨o.running, o.running.db.stateSnapshot order⟩ =
        .ok path ⟨t, o.running.db.stateSnapshot order⟩ := by
    rw [PerfDb.snapshot] at run
    simp only [onRunning, run]
  have step : Step.run fmts order .writeSnapshot ⟨o.running, o.running.db.stateSnapshot order⟩ =
      .ok () ⟨t, o.running.db.stateSnapshot order⟩ := by
    rw [Step.run]
    exact (bind_of_ok written).trans rfl
  exact (bind_of_ok step).trans rfl

end Alone

end Threads

end Perfdb
