import Mathlib
import Perfdb.Opening
import Perfdb.SnapshotBincode

set_option autoImplicit false

namespace Perfdb

def MarketSlot.withoutOi (slot : MarketSlot) : MarketSlot :=
  { slot with inner := { slot.inner with longOi := 0, shortOi := 0 } }

def MarketStateTable.withoutOi (table : MarketStateTable) : Vector MarketSlot marketCount :=
  table.slots.map MarketSlot.withoutOi

/-- Equal in everything but positions and open interest. -/
structure Stores.Agree (left right : Stores) : Prop where
  orders : left.orders = right.orders
  balances : left.balances = right.balances
  users : left.users = right.users
  checkpoint : left.checkpoint = right.checkpoint
  traderStats : left.traderStats = right.traderStats
  dailyStats : left.dailyStats = right.dailyStats
  events : left.events = right.events
  markets : left.marketState.withoutOi = right.marketState.withoutOi

namespace MarketStateTable

variable (table : MarketStateTable) (marketId : MarketId)

@[simp] theorem withoutOi_addLongOi (delta : FixedI128) :
    (table.addLongOi marketId delta).withoutOi = table.withoutOi :=
  map_modifySlot_of_hidden _ _ _ fun _ => rfl

@[simp] theorem withoutOi_addShortOi (delta : FixedI128) :
    (table.addShortOi marketId delta).withoutOi = table.withoutOi :=
  map_modifySlot_of_hidden _ _ _ fun _ => rfl

variable {left right : MarketStateTable}

/-- A change that does not look at the open interest keeps tables equal but for it. -/
theorem withoutOi_withSlot {update : MarketSlot → MarketSlot}
    (blind : ∀ slot, (update slot).withoutOi = (update slot.withoutOi).withoutOi)
    (same : left.withoutOi = right.withoutOi) :
    (left.withSlot marketId update).withoutOi = (right.withSlot marketId update).withoutOi := by
  refine map_modifySlot_congr _ _ same fun a b equal => ?_
  rw [blind a, blind b, equal]

variable (same : left.withoutOi = right.withoutOi)

include same

theorem withoutOi_setPrice (price : F64) (timestampNs : UInt64) :
    (left.setPrice marketId price timestampNs).withoutOi =
      (right.setPrice marketId price timestampNs).withoutOi :=
  withoutOi_withSlot marketId (fun _ => rfl) same

theorem withoutOi_setFundingRate (ratePerSecond rate24h : FixedI128) :
    (left.setFundingRate marketId ratePerSecond rate24h).withoutOi =
      (right.setFundingRate marketId ratePerSecond rate24h).withoutOi :=
  withoutOi_withSlot marketId (fun _ => rfl) same

theorem withoutOi_setPaused (paused : Bool) :
    (left.setPaused marketId paused).withoutOi = (right.setPaused marketId paused).withoutOi :=
  withoutOi_withSlot marketId (fun _ => rfl) same

end MarketStateTable

namespace Stores.Agree

variable {db : PerfDb} {stores : Stores} {snapBlock : UInt64}

/-- An event of a block that is not skipped does the same to both sides. -/
theorem event (agree : db.toStores.Agree stores) (indexed : IndexedEvent) :
    (db.applyEvent indexed).toStores.Agree (replayEvent indexed stores) := by
  obtain ⟨orders, balances, users, checkpoint, traderStats, dailyStats, events, markets⟩ := agree
  obtain ⟨blockNumber, blockTimestamp, txHash, txIndex, logIndex, event⟩ := indexed
  cases event with
  | positionOpened positionId user marketId isLong =>
      refine ⟨orders, balances, ?_, ?_, ?_, dailyStats, ?_, ?_⟩ <;>
        simp only [PerfDb.applyEvent, replayEvent, users, checkpoint, traderStats, events]
      cases isLong <;> simp [markets]
  | positionClosed positionId user marketId closedSizeUsd exitPrice realizedPnl isFullClose =>
      simp only [PerfDb.applyEvent]
      split
      · rename_i pos found
        refine ⟨orders, balances, users, ?_, ?_, ?_, ?_, ?_⟩ <;>
          simp only [replayEvent, checkpoint, traderStats, dailyStats, events]
        cases pos.isLong <;> simp [markets]
      · refine ⟨orders, balances, users, ?_, ?_, ?_, ?_, markets⟩ <;>
          simp only [replayEvent, checkpoint, traderStats, dailyStats, events]
  | positionModified | orderPlaced | orderExecuted | orderCancelled | liquidation | priceUpdated
  | fundingSettled | marketCreated | adlExecuted | vaultDeficit | collateralDeposited
  | collateralWithdrawn | vaultCreated =>
      refine ⟨?_, ?_, ?_, ?_, ?_, ?_, ?_, ?_⟩ <;>
        simp only [PerfDb.applyEvent, replayEvent, PerfDb.publishFound_toStores, orders, balances,
          users, checkpoint, traderStats, dailyStats, events, markets]
  | fundingRateUpdated marketId =>
      refine ⟨orders, balances, users, ?_, traderStats, dailyStats, ?_,
        MarketStateTable.withoutOi_setFundingRate marketId markets _ _⟩ <;>
        simp only [PerfDb.applyEvent, replayEvent, checkpoint, events]
  | marketPaused marketId =>
      refine ⟨orders, balances, users, ?_, traderStats, dailyStats, ?_,
        MarketStateTable.withoutOi_setPaused marketId markets true⟩ <;>
        simp only [PerfDb.applyEvent, replayEvent, checkpoint, events]

theorem tick (agree : db.toStores.Agree stores) (tick : PriceTick) :
    (db.setTickPrice tick).toStores.Agree
      (replayWalEntry snapBlock (.priceTick tick.timestampNs tick.marketId tick.price) stores) :=
  ⟨agree.orders, agree.balances, agree.users, agree.checkpoint, agree.traderStats,
    agree.dailyStats, agree.events, MarketStateTable.withoutOi_setPrice _ agree.markets _ _⟩

theorem refl (stores : Stores) : stores.Agree stores := ⟨rfl, rfl, rfl, rfl, rfl, rfl, rfl, rfl⟩

end Stores.Agree

/-- The reads of a market that do not see its open interest. -/
structure SameMarket (left right : MarketStateTable) (marketId : MarketId) : Prop where
  latestPrice : left.latestPrice marketId = right.latestPrice marketId
  lastUpdateNs : left.lastUpdateNs marketId = right.lastUpdateNs marketId
  fundingRate : left.fundingRate marketId = right.fundingRate marketId
  fundingRate24h : left.fundingRate24h marketId = right.fundingRate24h marketId
  isPaused : left.isPaused marketId = right.isPaused marketId

theorem SameMarket.of_withoutOi {left right : MarketStateTable}
    (same : left.withoutOi = right.withoutOi) (marketId : MarketId) :
    SameMarket left right marketId := by
  have slots := congrArg (fun slots => slots[marketId.toNat]?) same
  simp only [MarketStateTable.withoutOi, Vector.getElem?_map] at slots
  constructor <;>
    simp only [MarketStateTable.latestPrice, MarketStateTable.lastUpdateNs,
      MarketStateTable.fundingRate, MarketStateTable.fundingRate24h, MarketStateTable.isPaused] <;>
    cases one : left.slots[marketId.toNat]? <;> cases other : right.slots[marketId.toNat]? <;>
    simp_all [MarketSlot.withoutOi]

/-- What the engine is fed: events of the chain and ticks of the price feed. -/
inductive Feed where
  | event (indexed : IndexedEvent)
  | tick (tick : PriceTick)

def Feed.entry : Feed → WalEntry
  | .event indexed => .indexedEvent indexed
  | .tick sample => .priceTick sample.timestampNs sample.marketId sample.price

/-- An event is processed, and the price of a tick is set. -/
def Feed.live (fmt : Wal.Format) : Feed → EngineM Unit
  | .event indexed => PerfDb.processEvent fmt indexed
  | .tick sample => modify (Running.mapDb (PerfDb.setTickPrice sample))

def runLive (fmt : Wal.Format) : List Feed → EngineM Unit
  | [] => pure ()
  | item :: items => do
      item.live fmt
      runLive fmt items

/-- The items of a feed that replay does not skip. -/
def Feed.After (snapBlock : UInt64) : Feed → Prop
  | .event indexed => snapBlock < indexed.blockNumber
  | .tick _ => True

theorem replayWalEntry_event {snapBlock : UInt64} {indexed : IndexedEvent} {stores : Stores}
    (ahead : snapBlock < indexed.blockNumber) :
    replayWalEntry snapBlock (.indexedEvent indexed) stores = replayEvent indexed stores :=
  if_neg (UInt64.not_le.mpr ahead)

theorem Feed.live_agree {fmt : Wal.Format} {snapBlock : UInt64} {item : Feed} {r t : Running}
    {stores : Stores} (after : item.After snapBlock) (run : item.live fmt r = .ok () t)
    (agree : r.db.toStores.Agree stores) :
    t.db.toStores.Agree (replayWalEntry snapBlock item.entry stores) := by
  cases item with
  | event indexed =>
      obtain ⟨s, _, rfl⟩ := PerfDb.processEvent_ok run
      rw [Feed.entry, replayWalEntry_event after]
      exact Stores.Agree.event (show (r.setWalState s).db.toStores.Agree _ from agree) indexed
  | tick sample =>
      obtain rfl : r.mapDb (PerfDb.setTickPrice sample) = t := by
        simpa only [Feed.live, modify, modifyGet, MonadStateOf.modifyGet, EStateM.modifyGet,
          EStateM.Result.ok.injEq, true_and] using run
      exact agree.tick sample

theorem runLive_agree {fmt : Wal.Format} {snapBlock : UInt64} (items : List Feed)
    (after : ∀ item ∈ items, item.After snapBlock) {r t : Running} {stores : Stores}
    (run : runLive fmt items r = .ok () t) (agree : r.db.toStores.Agree stores) :
    t.db.toStores.Agree (replayEntries snapBlock (items.map Feed.entry) stores) := by
  induction items generalizing r stores with
  | nil =>
      obtain ⟨_, rfl⟩ : () = () ∧ r = t := EStateM.Result.ok.inj run
      exact agree
  | cons item items ih =>
      obtain ⟨_, u, first, rest⟩ := bind_ok run
      exact ih (fun other member => after other (List.mem_cons_of_mem item member)) rest
        (Feed.live_agree (after item List.mem_cons_self) first agree)

theorem runLive_returns (fmt : Wal.Format) (items : List Feed) {r : Running} (ready : r.Ready) :
    ∃ t, runLive fmt items r = .ok () t := by
  induction items generalizing r with
  | nil => exact ⟨r, rfl⟩
  | cons item items ih =>
      cases item with
      | event indexed =>
          obtain ⟨s, logged, keep⟩ := ready.logs fmt (.indexedEvent indexed)
          obtain ⟨u, run, log, snapshots, _⟩ := PerfDb.processEvent_of_log logged
          obtain ⟨t, rest⟩ := ih (keep u log snapshots)
          exact ⟨t, (bind_of_ok run).trans rest⟩
      | tick sample =>
          obtain ⟨t, rest⟩ := ih (r := r.mapDb (PerfDb.setTickPrice sample))
            ⟨ready.opened, ready.log, ready.snapshots⟩
          exact ⟨t, rest⟩

/-- From a common state, live application and replay agree on every store but positions
and open interest. -/
theorem live_agrees_with_replay (fmt : Wal.Format) (snapBlock : UInt64) (items : List Feed)
    (after : ∀ item ∈ items, item.After snapBlock) (r t : Running)
    (run : runLive fmt items r = .ok () t) :
    let replayed := replayEntries snapBlock (items.map Feed.entry) r.db.toStores
    t.db.toStores.Agree replayed ∧
      ∀ marketId, SameMarket t.db.marketState replayed.marketState marketId := by
  have agree := runLive_agree items after run (Stores.Agree.refl r.db.toStores)
  exact ⟨agree, fun marketId => SameMarket.of_withoutOi agree.markets marketId⟩

/-- A deposit, a tick and a trade after a snapshot of block 4. -/
theorem live_agrees_with_replay_deposit :
    ∃ db opened t, PerfDb.open_ Bincode.formats .stored ⟨"data", "wal", 1024, .none⟩ .fresh =
        .ok db opened ∧
      runLive Bincode.format
        [.event ⟨5, 1700000000, Vector.replicate 32 0, 0, 0,
            .collateralDeposited (Vector.replicate 20 1) (Vector.replicate 20 2) 100⟩,
          .tick ⟨1000000000, 0, Vector.replicate 6 0, ⟨0x4059000000000000⟩⟩,
          .event ⟨6, 1700000012, Vector.replicate 32 0, 0, 0,
            .liquidation (Vector.replicate 32 3) (Vector.replicate 20 1) 0 7 2
              (Vector.replicate 20 4)⟩] (opened.running db) = .ok () t ∧
      let replayed := replayEntries 4
        [.indexedEvent ⟨5, 1700000000, Vector.replicate 32 0, 0, 0,
            .collateralDeposited (Vector.replicate 20 1) (Vector.replicate 20 2) 100⟩,
          .priceTick 1000000000 0 ⟨0x4059000000000000⟩,
          .indexedEvent ⟨6, 1700000012, Vector.replicate 32 0, 0, 0,
            .liquidation (Vector.replicate 32 3) (Vector.replicate 20 1) 0 7 2
              (Vector.replicate 20 4)⟩] db.toStores
      t.db.toStores.Agree replayed ∧
        ∀ marketId, SameMarket t.db.marketState replayed.marketState marketId := by
  obtain ⟨db, opened, run, _, ready⟩ := PerfDb.open_blank Bincode.formats .stored
    ⟨"data", "wal", 1024, .none⟩ Disk.fresh_blank
  obtain ⟨t, live⟩ := runLive_returns Bincode.format _ ready
  exact ⟨db, opened, t, run, live, live_agrees_with_replay Bincode.format 4 _
    (by simp [Feed.After]) _ t live⟩

end Perfdb
