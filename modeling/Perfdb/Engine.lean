import Mathlib
import Perfdb.Balances
import Perfdb.Candles
import Perfdb.EventStore
import Perfdb.MarketState
import Perfdb.Orders
import Perfdb.Positions
import Perfdb.PubSub
import Perfdb.Relational
import Perfdb.Snapshot
import Perfdb.Stats
import Perfdb.Wal

set_option autoImplicit false

namespace Perfdb

structure PerfDbConfig where
  /-- Root directory for all data files. -/
  dataDir : String
  wal : Wal.WalConfig
  deriving DecidableEq

def PerfDbConfig.snapshotsDir (config : PerfDbConfig) : String := config.dataDir ++ "/snapshots"

/-- The stores that recovery rebuilds. -/
structure Stores where
  marketState : MarketStateTable
  positions : PositionTable
  orders : OrderTable
  balances : BalanceCache
  users : UserStore
  checkpoint : CheckpointStore
  traderStats : TraderStatsStore
  dailyStats : DailyStatsStore
  events : EventStore

def Stores.new : Stores where
  marketState := .new
  positions := .new
  orders := .new
  balances := .new
  users := .new
  checkpoint := .empty
  traderStats := .new
  dailyStats := .new
  events := .new

/-- Top-level engine. Coordinates all sub-engines. -/
structure PerfDb extends Stores where
  config : PerfDbConfig
  tickStore : TickStore
  candleStore : CandleStore
  candleBuilder : CandleBuilder
  pubsub : PubSubBus
  wal : Wal.WalWriter

/-- The serialization of everything that is stored. -/
structure Formats where
  wal : Wal.Format
  snapshot : Snapshot.Format

/-- A database and the directories of its log and its snapshots. -/
structure Running where
  db : PerfDb
  log : World
  snapshots : World

abbrev EngineM := EStateM (Abort PerfDbError) Running

namespace Running

def walState (r : Running) : Wal.WalState := ⟨r.db.wal, r.log⟩

def setWalState (r : Running) (s : Wal.WalState) : Running :=
  { r with db := { r.db with wal := s.wal }, log := s.world }

def mapDb (f : PerfDb → PerfDb) (r : Running) : Running := { r with db := f r.db }

end Running

def onWal {α : Type} (operation : Wal.WalM α) : EngineM α := fun r =>
  match operation r.walState with
  | .ok value s => .ok value (r.setWalState s)
  | .error abort s => .error abort (r.setWalState s)

def onSnapshots {α : Type} (operation : EStateM (Abort PerfDbError) World α) :
    EngineM α := fun r =>
  match operation r.snapshots with
  | .ok value world => .ok value { r with snapshots := world }
  | .error abort world => .error abort { r with snapshots := world }

/-- A change of the database that may be refused. -/
def tryDb (change : PerfDb → Except PerfDbError PerfDb) : EngineM Unit := fun r =>
  match change r.db with
  | .ok db => .ok () { r with db := db }
  | .error reason => .error (.error reason) r

def extractEventKeys : Event → Option MarketId × Option Address
  | .positionOpened _ user marketId _ _ _ _ _ _ => (some marketId, some user)
  | .positionClosed _ user marketId _ _ _ _ => (some marketId, some user)
  | .positionModified _ _ _ _ => (none, none)
  | .orderPlaced _ user marketId _ _ _ _ => (some marketId, some user)
  | .orderExecuted _ _ _ => (none, none)
  | .orderCancelled _ user => (none, some user)
  | .liquidation _ user marketId _ _ _ => (some marketId, some user)
  | .adlExecuted _ _ => (none, none)
  | .priceUpdated marketId _ _ => (some marketId, none)
  | .fundingSettled marketId _ _ _ => (some marketId, none)
  | .fundingRateUpdated marketId _ _ => (some marketId, none)
  | .marketCreated marketId _ _ => (some marketId, none)
  | .marketPaused marketId => (some marketId, none)
  | .collateralDeposited user _ _ => (none, some user)
  | .collateralWithdrawn user _ _ => (none, some user)
  | .vaultCreated user _ => (none, some user)
  | .vaultDeficit _ _ => (none, none)

/-- Convert a unix timestamp (seconds) to a number with the digits YYYYMMDD. -/
def timestampToDate (ts : UInt64) : UInt32 :=
  let days := ts / 86400
  let z := days + 719468
  let era := z / 146097
  let doe := z - era * 146097
  let yoe := (doe - doe / 1460 + doe / 36524 - doe / 146096) / 365
  let y := yoe + era * 400
  let doy := doe - (365 * yoe + yoe / 4 - yoe / 100)
  let mp := (5 * doy + 2) / 153
  let d := doy - (153 * mp + 2) / 5 + 1
  let m := if mp < 10 then mp + 3 else mp - 9
  let y := if m ≤ 2 then y + 1 else y
  y.toUInt32 * 10000 + m.toUInt32 * 100 + d.toUInt32

namespace PerfDb

def publish (db : PerfDb) (channel : Channel) (message : PubSubMessage) : PerfDb :=
  { db with pubsub := db.pubsub.publish channel message }

def publishFound {α : Type} (db : PerfDb) (channel : Channel) (message : α → PubSubMessage) :
    Option α → PerfDb
  | some value => db.publish channel (message value)
  | none => db

/-- The part of `process_event` behind the log: the stores are updated by the
variant of the event, the changes published and the checkpoint advanced. -/
def applyEvent (indexed : IndexedEvent) (db : PerfDb) : PerfDb :=
  let (marketId, trader) := extractEventKeys indexed.event
  let db := { db with events := db.events.append indexed marketId trader }
  let db :=
    match indexed.event with
    | .positionOpened positionId user marketId isLong sizeUsd leverage entryPrice collateralToken
        collateralAmount =>
        let pos : Position := {
          positionId
          userAddress := user
          marketId
          isLong
          sizeUsd
          collateralUsd := sizeUsd / max leverage 1
          collateralToken
          collateralAmount
          entryPrice
          exitPrice := none
          realizedPnl := none
          leverage
          status := .open_
          openTx := indexed.txHash
          closeTx := none
          openBlock := indexed.blockNumber
          closeBlock := none
          openedAt := indexed.blockTimestamp
          closedAt := none }
        { db with
          positions := db.positions.insert pos
          users := db.users.ensure user indexed.blockTimestamp
          traderStats := (db.traderStats.ensure user).incrementOpenPositions user
          marketState :=
            if isLong then db.marketState.addLongOi marketId sizeUsd
            else db.marketState.addShortOi marketId sizeUsd
          pubsub := db.pubsub.publish .positions (.positionUpdate pos) }
    | .positionClosed positionId user marketId closedSizeUsd exitPrice realizedPnl isFullClose =>
        let isWin := decide (0 < realizedPnl)
        let positions := (db.positions.update positionId fun p =>
          let p := { p with
            exitPrice := some exitPrice
            realizedPnl := some realizedPnl
            closeTx := some indexed.txHash
            closeBlock := some indexed.blockNumber
            closedAt := some indexed.blockTimestamp }
          if isFullClose then { p with status := .closed }
          else { p with sizeUsd := p.sizeUsd - closedSizeUsd }).2
        let traderStats := ((db.traderStats.ensure user).incrementTrade user closedSizeUsd
          realizedPnl 0 isWin false indexed.blockTimestamp).2
        let db := { db with
          positions := positions
          traderStats :=
            if isFullClose then traderStats.decrementOpenPositions user else traderStats
          dailyStats := db.dailyStats.accumulateTrade user
            (timestampToDate indexed.blockTimestamp) closedSizeUsd realizedPnl 0 }
        match db.positions.get positionId with
        | some pos =>
            { db with
              marketState :=
                if pos.isLong then db.marketState.addLongOi marketId (-closedSizeUsd)
                else db.marketState.addShortOi marketId (-closedSizeUsd)
              pubsub := db.pubsub.publish .positions (.positionUpdate pos) }
        | none => db
    | .positionModified positionId newSizeUsd newCollateralUsd newCollateralAmount =>
        let db := { db with positions := (db.positions.update positionId fun p => { p with
          sizeUsd := newSizeUsd
          collateralUsd := newCollateralUsd
          collateralAmount := newCollateralAmount }).2 }
        db.publishFound .positions .positionUpdate (db.positions.get positionId)
    | .orderPlaced orderId user marketId orderType isLong triggerPrice sizeUsd =>
        let order : Order := {
          orderId
          userAddress := user
          marketId
          isLong
          orderType := OrderType.ofU8 orderType
          triggerPrice
          limitPrice := none
          sizeUsd
          leverage := 0
          collateralToken := Vector.replicate 20 0
          collateralAmount := 0
          status := .active
          executionPrice := none
          positionId := none
          txHash := indexed.txHash
          blockNumber := indexed.blockNumber
          createdAt := indexed.blockTimestamp
          executedAt := none }
        { db with
          orders := db.orders.insert order
          users := db.users.ensure user indexed.blockTimestamp
          pubsub := db.pubsub.publish .orders (.orderUpdate order) }
    | .orderExecuted orderId positionId executionPrice =>
        let (order, orders) :=
          db.orders.execute orderId executionPrice positionId indexed.blockTimestamp
        publishFound { db with orders := orders } .orders .orderUpdate order
    | .orderCancelled orderId _ =>
        let (order, orders) := db.orders.cancel orderId
        publishFound { db with orders := orders } .orders .orderUpdate order
    | .liquidation positionId user marketId liquidationPrice penalty _ =>
        let positions := (db.positions.update positionId fun p => { p with
          status := .liquidated
          exitPrice := some liquidationPrice
          closeTx := some indexed.txHash
          closeBlock := some indexed.blockNumber
          closedAt := some indexed.blockTimestamp }).2
        let traderStats := ((db.traderStats.ensure user).incrementTrade user 0 (-penalty) 0 false
          true indexed.blockTimestamp).2
        { db with
          positions := positions
          traderStats := traderStats.decrementOpenPositions user
          pubsub := db.pubsub.publish .liquidations
            (.liquidationEvent positionId user marketId liquidationPrice penalty) }
    | .fundingRateUpdated marketId newRatePerSecond fundingRate24h =>
        { db with
          marketState := db.marketState.setFundingRate marketId newRatePerSecond fundingRate24h
          pubsub := db.pubsub.publish .funding
            (.fundingUpdate marketId newRatePerSecond fundingRate24h) }
    | .collateralDeposited user token amount =>
        let existing := db.balances.get user token
        let newAmount := (existing.map fun (b : Balance) => b.amount + amount).getD amount
        let newLocked := (existing.map fun (b : Balance) => b.locked).getD 0
        let db := { db with
          users := db.users.ensure user indexed.blockTimestamp
          balances := db.balances.setRaw user token newAmount newLocked (newAmount - newLocked) }
        db.publishFound .balances .balanceUpdate (db.balances.get user token)
    | .collateralWithdrawn user token amount =>
        let existing := db.balances.get user token
        let newAmount := (existing.map fun (b : Balance) => max (b.amount - amount) 0).getD 0
        let newLocked := (existing.map fun (b : Balance) => b.locked).getD 0
        let db := { db with
          balances :=
            db.balances.setRaw user token newAmount newLocked (max (newAmount - newLocked) 0) }
        db.publishFound .balances .balanceUpdate (db.balances.get user token)
    | .vaultCreated user vault =>
        { db with users := (db.users.ensure user indexed.blockTimestamp).setVault user vault }
    | .marketPaused marketId => { db with marketState := db.marketState.setPaused marketId true }
    | .priceUpdated _ _ _ | .fundingSettled _ _ _ _ | .marketCreated _ _ _ | .adlExecuted _ _
    | .vaultDeficit _ _ => db
  { db with checkpoint := db.checkpoint.advanceBlock indexed.blockNumber }

/-- Process a decoded chain event: it is logged first, then applied. -/
def processEvent (fmt : Wal.Format) (indexed : IndexedEvent) : EngineM Unit := do
  onWal (Wal.append fmt (.indexedEvent indexed))
  modify (Running.mapDb (applyEvent indexed))

def appendTick (tick : PriceTick) (db : PerfDb) : Except PerfDbError PerfDb :=
  (db.tickStore.append tick).map fun tickStore => { db with tickStore := tickStore }

def appendCandle (candle : CandleRecord) (db : PerfDb) : Except PerfDbError PerfDb :=
  (db.candleStore.append candle).map fun candleStore => { db with candleStore := candleStore }

/-- The loop over the outputs. -/
def appendClosed : List CandleOutput → EngineM Unit
  | [] => pure ()
  | .closed candle :: outputs => do
      tryDb (appendCandle candle)
      appendClosed outputs
  | .live _ :: outputs => appendClosed outputs

def setTickPrice (tick : PriceTick) (db : PerfDb) : PerfDb :=
  { db with marketState := db.marketState.setPrice tick.marketId tick.price tick.timestampNs }

def buildCandles (tick : PriceTick) : EngineM (List CandleOutput) := fun r =>
  let (builder, outputs) := r.db.candleBuilder.onTick tick
  .ok outputs { r with db := { r.db with candleBuilder := builder } }

/-- Ingest a raw price tick from the price feed. Returns the candle outputs. -/
def ingestTick (fmt : Wal.Format) (tick : PriceTick) : EngineM (List CandleOutput) := do
  onWal (Wal.append fmt (.priceTick tick.timestampNs tick.marketId tick.price))
  tryDb (appendTick tick)
  modify (Running.mapDb (setTickPrice tick))
  let outputs ← buildCandles tick
  appendClosed outputs
  modify (Running.mapDb fun db => db.publish .prices
    (.priceUpdate tick.marketId tick.price tick.timestampNs))
  pure outputs

/-- Update the checkpoint to a specific block (called at batch boundaries). -/
def saveCheckpoint (block : UInt64) (hash : String) (timestamp : UInt64) (db : PerfDb) : PerfDb :=
  { db with checkpoint := db.checkpoint.save block hash timestamp }

/-- Stored candles for a (market, timeframe) pair. -/
def candles (db : PerfDb) (marketId : MarketId) (tf : Timeframe) : List CandleRecord :=
  db.candleStore.candles marketId tf

/-- Current live (in-progress) candle for a (market, timeframe). -/
def liveCandle (db : PerfDb) (marketId : MarketId) (tf : Timeframe) : Option CandleRecord :=
  db.candleBuilder.current marketId tf

end PerfDb

def Stores.stateSnapshot (order : Iteration) (stores : Stores) : StateSnapshot where
  checkpoint := .ofCheckpoint stores.checkpoint.snapshot
  positions := stores.positions.all order
  orders := stores.orders.all order
  balances := stores.balances.all order
  users := stores.users.all order
  traderStats := stores.traderStats.all order
  dailyStats := (stores.traderStats.all order).flatMap fun ts =>
    (stores.dailyStats.traderDailyHistory order ts.address 1000).map fun ds => ⟨ts.address, ds⟩
  marketStates := (List.range marketCount).filterMap fun i =>
    (stores.marketState.snapshot i.toUInt16).map SnapshotMarketState.ofSnapshot
  snapshotTimestamp := stores.checkpoint.lastBlockTimestamp

/-- Create a state snapshot and write it to disk. -/
def PerfDb.snapshot (fmt : Snapshot.Format) (order : Iteration) : EngineM String := fun r =>
  onSnapshots
    (Snapshot.writeSnapshot fmt r.db.config.snapshotsDir (r.db.stateSnapshot order)) r

def PerfDb.appendCandles : List CandleRecord → EngineM Unit
  | [] => pure ()
  | candle :: candles => do
      tryDb (appendCandle candle)
      appendCandles candles

/-- Graceful shutdown: the live candles are stored, the log synced and a final snapshot
written. The mapped files are flushed as well, which changes nothing in them. -/
def PerfDb.shutdown (fmts : Formats) (order : Iteration) : EngineM Unit := do
  let r ← get
  appendCandles r.db.candleBuilder.flushAll
  onWal Wal.sync
  let _ ← PerfDb.snapshot fmts.snapshot order
  pure ()

def restoreMarket (table : MarketStateTable) (ms : SnapshotMarketState) : MarketStateTable :=
  let table := table.setPrice ms.marketId ms.latestPrice ms.lastUpdateNs
  let table := table.setFundingRate ms.marketId ms.fundingRatePerSecond ms.fundingRate24h
  let table := table.setOpenInterest ms.marketId ms.longOi ms.shortOi
  let table := table.setOraclePrices ms.marketId ms.markPrice ms.indexPrice
  let table := table.setConfig ms.marketId ms.maxLeverage ms.maintenanceMarginBps
  let table := table.setEnabled ms.marketId ms.enabled
  let table := table.setPaused ms.marketId ms.paused
  table.set24hStats ms.marketId ms.volume24h ms.trades24h ms.priceChange24h ms.priceChangePct24h

def restoreSnapshot (snap : StateSnapshot) (stores : Stores) : Stores :=
  { stores with
    checkpoint := stores.checkpoint.save snap.checkpoint.lastBlock snap.checkpoint.lastBlockHash
      snap.checkpoint.lastBlockTimestamp
    positions := snap.positions.foldl PositionTable.insert stores.positions
    orders := snap.orders.foldl OrderTable.insert stores.orders
    balances := snap.balances.foldl BalanceCache.set stores.balances
    users := snap.users.foldl UserStore.upsert stores.users
    traderStats := snap.traderStats.foldl
      (fun store ts => ((store.ensure ts.address).update ts.address fun _ => ts).2)
      stores.traderStats
    dailyStats := snap.dailyStats.foldl
      (fun store entry => store.setTraderDaily entry.address entry.stats.date entry.stats)
      stores.dailyStats
    marketState := snap.marketStates.foldl restoreMarket stores.marketState }

/-- The event arm of `replay_wal_entry`. Variants without an arm change no store. -/
def replayEvent (indexed : IndexedEvent) (stores : Stores) : Stores :=
  let (mid, trader) := extractEventKeys indexed.event
  let stores := { stores with events := stores.events.append indexed mid trader }
  let stores :=
    match indexed.event with
    | .positionOpened positionId user marketId isLong sizeUsd leverage _ collateralToken
        collateralAmount =>
        let pos : Position := {
          positionId
          userAddress := user
          marketId
          isLong
          sizeUsd
          collateralUsd := sizeUsd / max leverage 1
          collateralToken
          collateralAmount
          entryPrice := 0
          exitPrice := none
          realizedPnl := none
          leverage
          status := .open_
          openTx := indexed.txHash
          closeTx := none
          openBlock := indexed.blockNumber
          closeBlock := none
          openedAt := indexed.blockTimestamp
          closedAt := none }
        { stores with
          positions := stores.positions.insert pos
          users := stores.users.ensure user indexed.blockTimestamp
          traderStats := (stores.traderStats.ensure user).incrementOpenPositions user }
    | .positionClosed positionId user _ closedSizeUsd exitPrice realizedPnl isFullClose =>
        let positions := (stores.positions.update positionId fun p =>
          let p := { p with exitPrice := some exitPrice, realizedPnl := some realizedPnl }
          if isFullClose then { p with status := .closed }
          else { p with sizeUsd := p.sizeUsd - closedSizeUsd }).2
        let traderStats := ((stores.traderStats.ensure user).incrementTrade user closedSizeUsd
          realizedPnl 0 (decide (0 < realizedPnl)) false indexed.blockTimestamp).2
        { stores with
          positions := positions
          traderStats :=
            if isFullClose then traderStats.decrementOpenPositions user else traderStats
          dailyStats := stores.dailyStats.accumulateTrade user
            (timestampToDate indexed.blockTimestamp) closedSizeUsd realizedPnl 0 }
    | .liquidation positionId user _ liquidationPrice penalty _ =>
        let positions := (stores.positions.update positionId fun p => { p with
          status := .liquidated
          exitPrice := some liquidationPrice }).2
        let traderStats := ((stores.traderStats.ensure user).incrementTrade user 0 (-penalty) 0
          false true indexed.blockTimestamp).2
        { stores with
          positions := positions
          traderStats := traderStats.decrementOpenPositions user }
    | .orderPlaced orderId user marketId orderType isLong triggerPrice sizeUsd =>
        let order : Order := {
          orderId
          userAddress := user
          marketId
          isLong
          orderType := OrderType.ofU8 orderType
          triggerPrice
          limitPrice := none
          sizeUsd
          leverage := 0
          collateralToken := Vector.replicate 20 0
          collateralAmount := 0
          status := .active
          executionPrice := none
          positionId := none
          txHash := indexed.txHash
          blockNumber := indexed.blockNumber
          createdAt := indexed.blockTimestamp
          executedAt := none }
        { stores with
          orders := stores.orders.insert order
          users := stores.users.ensure user indexed.blockTimestamp }
    | .orderExecuted orderId positionId executionPrice =>
        { stores with orders := (stores.orders.execute orderId executionPrice positionId
          indexed.blockTimestamp).2 }
    | .orderCancelled orderId _ => { stores with orders := (stores.orders.cancel orderId).2 }
    | .collateralDeposited user token amount =>
        let existing := stores.balances.get user token
        let newAmount := (existing.map fun (b : Balance) => b.amount + amount).getD amount
        let newLocked := (existing.map fun (b : Balance) => b.locked).getD 0
        { stores with
          users := stores.users.ensure user indexed.blockTimestamp
          balances :=
            stores.balances.setRaw user token newAmount newLocked (newAmount - newLocked) }
    | .collateralWithdrawn user token amount =>
        let existing := stores.balances.get user token
        let newAmount := (existing.map fun (b : Balance) => max (b.amount - amount) 0).getD 0
        let newLocked := (existing.map fun (b : Balance) => b.locked).getD 0
        { stores with
          balances := stores.balances.setRaw user token newAmount newLocked
            (max (newAmount - newLocked) 0) }
    | .vaultCreated user vault =>
        { stores with
          users := (stores.users.ensure user indexed.blockTimestamp).setVault user vault }
    | .fundingRateUpdated marketId newRatePerSecond fundingRate24h =>
        { stores with
          marketState :=
            stores.marketState.setFundingRate marketId newRatePerSecond fundingRate24h }
    | .marketPaused marketId =>
        { stores with marketState := stores.marketState.setPaused marketId true }
    | _ => stores
  { stores with checkpoint := stores.checkpoint.advanceBlock indexed.blockNumber }

/-- Replay a single WAL entry into state (used during recovery). Events of blocks up to
`snapBlock` are skipped. -/
def replayWalEntry (snapBlock : UInt64) (entry : WalEntry) (stores : Stores) : Stores :=
  match entry with
  | .priceTick timestampNs marketId price =>
      { stores with marketState := stores.marketState.setPrice marketId price timestampNs }
  | .checkpoint blockNumber =>
      { stores with checkpoint := stores.checkpoint.advanceBlock blockNumber }
  | .balanceUpdate user token amount locked available =>
      { stores with balances := stores.balances.setRaw user token amount locked available }
  | .indexedEvent indexed =>
      if indexed.blockNumber ≤ snapBlock then stores else replayEvent indexed stores
  | .candleUpdate _ _ _ _ _ _ _ _ | .batchEnd => stores

/-- What a database leaves on disk. -/
structure Disk where
  log : World
  snapshots : World
  ticks : TickStore
  candles : CandleStore

/-- A directory nothing has been stored in, in an environment where no call fails. -/
def Disk.fresh : Disk := ⟨⟨∅, [], []⟩, ⟨∅, [], []⟩, .new, .new⟩

def Running.close (r : Running) : Disk where
  log := { r.log with dir := r.walState.close }
  snapshots := r.snapshots
  ticks := r.db.tickStore
  candles := r.db.candleStore

/-- Every builder continues from the last stored candle. -/
def seedBuilder (store : CandleStore) : CandleBuilder :=
  (List.range marketCount).foldl (fun builder mid =>
    Timeframe.all.foldl (fun builder tf =>
      match store.latest mid.toUInt16 tf with
      | some last => builder.seed mid.toUInt16 tf last
      | none => builder) builder) .new

/-- Open or create a database. Recovery order: the latest snapshot is restored, the
log opened and replayed, the candle builders seeded. -/
def PerfDb.open_ (fmts : Formats) (order : Iteration) (config : PerfDbConfig) :
    EStateM (Abort PerfDbError) Disk PerfDb := fun disk =>
  match Snapshot.loadLatestSnapshot fmts.snapshot order config.snapshotsDir disk.snapshots.dir with
  | .error reason => .error (.error reason) disk
  | .ok snap =>
      let snapBlock := (snap.map fun s => s.checkpoint.lastBlock).getD 0
      let restored := (snap.map fun s => restoreSnapshot s .new).getD .new
      match Wal.WalWriter.openLog order config.wal disk.log with
      | .error abort log => .error abort { disk with log := log }
      | .ok wal log =>
          match Wal.replay fmts.wal
              (fun stores entry => .ok (replayWalEntry snapBlock entry stores)) order
              config.wal.dir log.dir restored with
          | .error reason => .error (.error reason) { disk with log := log }
          | .ok (stores, _) =>
              .ok { stores with
                config
                tickStore := disk.ticks
                candleStore := disk.candles
                candleBuilder := seedBuilder disk.candles
                pubsub := .new
                wal } { disk with log := log }

/-- An opened database in the world it was opened in. -/
def Disk.running (disk : Disk) (db : PerfDb) : Running := ⟨db, disk.log, disk.snapshots⟩

/-- The database is dropped and opened again. -/
def PerfDb.reopen (fmts : Formats) (order : Iteration) : EngineM Unit := fun r =>
  match PerfDb.open_ fmts order r.db.config r.close with
  | .ok db disk => .ok () (disk.running db)
  | .error abort disk => .error abort { r with log := disk.log }

end Perfdb
