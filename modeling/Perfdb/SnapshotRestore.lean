import Mathlib
import Perfdb.Opening
import Perfdb.SnapshotBincode
import Perfdb.StoreKeys

set_option autoImplicit false

namespace Perfdb

/-- The same balances and trader stats. -/
structure Stores.SameAccounts (left right : Stores) : Prop where
  balances : left.balances.balances = right.balances.balances
  traderStats : left.traderStats.stats = right.traderStats.stats

section Restore

variable (order : Iteration) {stores : Stores} (keyed : stores.Keyed)

/-- Ensuring an entry and then overwriting it stores it. -/
theorem ensure_update (store : TraderStatsStore) (ts : TraderStats) :
    ((store.ensure ts.address).update ts.address fun _ => ts).2.stats =
      store.stats.insert ts.address ts := by
  apply Std.ExtTreeMap.ext_getElem?
  intro address
  simp only [TraderStatsStore.ensure, TraderStatsStore.update, Table.getElem?_modify,
    Table.getElem?_insertIfNew, Table.getElem?_insert]
  split <;> simp

include keyed

theorem restore_accounts :
    (restoreSnapshot (stores.stateSnapshot order) .new).SameAccounts stores where
  balances := Table.rebuild_through order stores.balances.balances _ keyed.balances
    BalanceCache.balances BalanceCache.set (fun _ _ => rfl) rfl
  traderStats := Table.rebuild_through order stores.traderStats.stats _ keyed.traderStats
    TraderStatsStore.stats
    (fun store ts => ((store.ensure ts.address).update ts.address fun _ => ts).2)
    ensure_update rfl

theorem restore_positions :
    (restoreSnapshot (stores.stateSnapshot order) .new).positions.positions =
      stores.positions.positions :=
  Table.rebuild_through order stores.positions.positions _ keyed.positions
    PositionTable.positions PositionTable.insert (fun _ _ => rfl) rfl

theorem restore_orders :
    (restoreSnapshot (stores.stateSnapshot order) .new).orders.orders = stores.orders.orders :=
  Table.rebuild_through order stores.orders.orders _ keyed.orders OrderTable.orders
    OrderTable.insert (fun _ _ => rfl) rfl

theorem restore_users :
    (restoreSnapshot (stores.stateSnapshot order) .new).users.users = stores.users.users :=
  Table.rebuild_through order stores.users.users _ keyed.users UserStore.users
    UserStore.upsert (fun _ _ => rfl) rfl

end Restore

section Markets

def restoreSlot (ms : SnapshotMarketState) (slot : MarketSlot) : MarketSlot where
  latestPriceBits := ms.latestPrice.bits
  lastUpdateNs := ms.lastUpdateNs
  inner := {
    markPrice := if ms.markPrice.isSome then ms.markPrice else slot.inner.markPrice
    indexPrice := if ms.indexPrice.isSome then ms.indexPrice else slot.inner.indexPrice
    fundingRatePerSecond := ms.fundingRatePerSecond
    fundingRate24h := ms.fundingRate24h
    longOi := ms.longOi
    shortOi := ms.shortOi
    enabled := ms.enabled
    paused := ms.paused
    maxLeverage := ms.maxLeverage
    maintenanceMarginBps := ms.maintenanceMarginBps
    volume24h := ms.volume24h
    trades24h := ms.trades24h
    priceChange24h := ms.priceChange24h
    priceChangePct24h := ms.priceChangePct24h }

theorem restoreMarket_slots (table : MarketStateTable) (ms : SnapshotMarketState) :
    (restoreMarket table ms).slots = modifySlot table.slots ms.marketId.toNat (restoreSlot ms) := by
  simp only [restoreMarket, MarketStateTable.setPrice, MarketStateTable.setFundingRate,
    MarketStateTable.setOpenInterest, MarketStateTable.setOraclePrices,
    MarketStateTable.setConfig, MarketStateTable.setEnabled, MarketStateTable.setPaused,
    MarketStateTable.set24hStats, MarketStateTable.withInner, MarketStateTable.withSlot,
    modifySlot_modifySlot]
  rfl

/-- What the snapshot of a market holds of its slot. -/
def savedSlot (marketId : MarketId) (slot : MarketSlot) : SnapshotMarketState :=
  .ofSnapshot {
    marketId
    latestPrice := ⟨slot.latestPriceBits⟩
    lastUpdateNs := slot.lastUpdateNs
    markPrice := slot.inner.markPrice
    indexPrice := slot.inner.indexPrice
    fundingRatePerSecond := slot.inner.fundingRatePerSecond
    fundingRate24h := slot.inner.fundingRate24h
    longOi := slot.inner.longOi
    shortOi := slot.inner.shortOi
    enabled := slot.inner.enabled
    paused := slot.inner.paused
    maxLeverage := slot.inner.maxLeverage
    maintenanceMarginBps := slot.inner.maintenanceMarginBps
    volume24h := slot.inner.volume24h
    trades24h := slot.inner.trades24h
    priceChange24h := slot.inner.priceChange24h
    priceChangePct24h := slot.inner.priceChangePct24h }

theorem saved_eq (table : MarketStateTable) (marketId : MarketId) :
    (table.snapshot marketId).map SnapshotMarketState.ofSnapshot =
      (table.slots[marketId.toNat]?).map (savedSlot marketId) := by
  simp only [MarketStateTable.snapshot, Option.map_map]
  rfl

theorem restoreSlot_saved (marketId : MarketId) (slot blank : MarketSlot)
    (mark : blank.inner.markPrice = none) (index : blank.inner.indexPrice = none) :
    restoreSlot (savedSlot marketId slot) blank = slot := by
  obtain ⟨bits, ns, markPrice, indexPrice⟩ := slot
  cases markPrice <;> cases indexPrice <;>
    simp [restoreSlot, savedSlot, SnapshotMarketState.ofSnapshot, mark, index]

/-- The slot of a market as it was saved. -/
def saved (table : MarketStateTable) (i : Nat) (slot : MarketSlot) : MarketSlot :=
  match table.slots[i]? with
  | some old => restoreSlot (savedSlot i.toUInt16 old) slot
  | none => slot

theorem restoreMarkets_slots (table start : MarketStateTable) (count : Nat)
    (inside : count ≤ marketCount) :
    (((List.range count).filterMap fun i =>
      (table.snapshot i.toUInt16).map SnapshotMarketState.ofSnapshot).foldl restoreMarket
        start).slots =
      (List.range count).foldl (fun slots i => modifySlot slots i (saved table i)) start.slots := by
  induction count with
  | zero => rfl
  | succ count ih =>
      have here : count < marketCount := inside
      rw [List.range_succ, List.filterMap_append, List.foldl_append, List.foldl_append,
        List.foldl_cons, List.foldl_nil, ← ih (by omega), List.filterMap_cons, saved_eq,
        toUInt16_toNat here, Vector.getElem?_eq_getElem here, Option.map_some]
      simp only [List.filterMap_nil, List.foldl_cons, List.foldl_nil, restoreMarket_slots]
      have same : saved table count = restoreSlot (savedSlot count.toUInt16 table.slots[count]) := by
        funext slot
        simp only [saved, Vector.getElem?_eq_getElem here]
      rw [same]
      have id : (savedSlot count.toUInt16 table.slots[count]).marketId.toNat = count :=
        toUInt16_toNat here
      rw [id]

theorem restore_markets (order : Iteration) (stores : Stores) :
    (restoreSnapshot (stores.stateSnapshot order) .new).marketState = stores.marketState := by
  apply MarketStateTable.ext_slots
  refine (restoreMarkets_slots stores.marketState .new marketCount (Nat.le_refl _)).trans ?_
  ext i inside
  have fold := foldl_modifySlot (saved stores.marketState) MarketStateTable.new.slots marketCount i
  have blank : MarketStateTable.new.slots[i]? = some ⟨0, 0, MarketInner.default⟩ := by
    rw [MarketStateTable.new, Vector.getElem?_replicate, if_pos inside]
  rw [if_pos inside, blank, Option.map_some, Vector.getElem?_eq_getElem inside] at fold
  rw [Option.some.inj fold, saved, Vector.getElem?_eq_getElem inside]
  exact restoreSlot_saved _ _ _ rfl rfl

end Markets

theorem restore_checkpoint (order : Iteration) (stores : Stores) :
    (restoreSnapshot (stores.stateSnapshot order) .new).checkpoint = stores.checkpoint := by
  have whole (snap : StateSnapshot) (start : Stores) : (restoreSnapshot snap start).checkpoint =
      ⟨snap.checkpoint.lastBlock, snap.checkpoint.lastBlockTimestamp,
        snap.checkpoint.lastBlockHash⟩ := rfl
  rw [whole]
  rfl

/-- The same answer to every lookup in the stores that a snapshot carries in full. -/
structure Stores.SamePrimary (left right : Stores) : Prop where
  positions : ∀ id, left.positions.get id = right.positions.get id
  orders : ∀ id, left.orders.get id = right.orders.get id
  balances : ∀ user token, left.balances.get user token = right.balances.get user token
  users : ∀ address, left.users.get address = right.users.get address
  traderStats : ∀ address, left.traderStats.get address = right.traderStats.get address
  markets : ∀ marketId, left.marketState.snapshot marketId = right.marketState.snapshot marketId
  checkpoint : left.checkpoint = right.checkpoint

/-- Saving and restoring the stores loses no entry of them. -/
theorem restore_primary (order : Iteration) {stores : Stores} (keyed : stores.Keyed) :
    (restoreSnapshot (stores.stateSnapshot order) .new).SamePrimary stores where
  positions id := by
    rw [PositionTable.get, restore_positions order keyed, PositionTable.get]
  orders id := by
    rw [OrderTable.get, restore_orders order keyed, OrderTable.get]
  balances user token := by
    rw [BalanceCache.get, (restore_accounts order keyed).balances, BalanceCache.get]
  users address := by
    rw [UserStore.get, restore_users order keyed, UserStore.get]
  traderStats address := by
    rw [TraderStatsStore.get, (restore_accounts order keyed).traderStats, TraderStatsStore.get]
  markets marketId := by
    rw [restore_markets]
  checkpoint := restore_checkpoint order stores

/-- Whatever calls a database has taken, failed ones included, the file of its snapshot
restores its primary stores. -/
theorem snapshot_restores (fmts : Formats) (inverse : fmts.snapshot.RoundTrips)
    (order : Iteration) (calls : List EngineCall) {r t : Running} (empty : r.db.toStores = .new)
    {path : String}
    (written : PerfDb.snapshot fmts.snapshot order (afterCalls fmts.wal calls r) = .ok path t) :
    let last := (afterCalls fmts.wal calls r).db.toStores
    ∃ file snap,
      t.snapshots.dir[Snapshot.snapshotName last.checkpoint.lastBlock.toNat]? = some file ∧
      fmts.snapshot.deserialize file.contents = .ok snap ∧
      (restoreSnapshot snap .new).SamePrimary last := by
  intro last
  have keyed : last.Keyed := afterCalls_keyed fmts.wal calls (empty ▸ Stores.keyed_new)
  have dir := PerfDb.snapshot_dir written
  refine ⟨⟨[], fmts.snapshot.serialize (last.stateSnapshot order)⟩, last.stateSnapshot order, ?_,
    inverse _, restore_primary order keyed⟩
  rw [dir, Table.getElem?_insert, if_pos rfl]

/-- A deposit, a tick and a checkpoint. -/
theorem snapshot_restores_deposit :
    ∃ db opened path t,
      PerfDb.open_ Bincode.formats .stored ⟨"data", "wal", 1024, .none⟩ .fresh = .ok db opened ∧
      let last := afterCalls Bincode.format
        [.event ⟨5, 1700000000, Vector.replicate 32 0, 0, 0,
            .collateralDeposited (Vector.replicate 20 1) (Vector.replicate 20 2) 100⟩,
          .tick ⟨1000000000, 0, Vector.replicate 6 0, ⟨0x4059000000000000⟩⟩,
          .checkpoint 5 "0x05" 1700000000] (opened.running db)
      PerfDb.snapshot Bincode.snapshotFormat .stored last = .ok path t ∧
      ∃ file snap,
        t.snapshots.dir[Snapshot.snapshotName last.db.checkpoint.lastBlock.toNat]? = some file ∧
        Bincode.snapshotFormat.deserialize file.contents = .ok snap ∧
        (restoreSnapshot snap .new).SamePrimary last.db.toStores := by
  obtain ⟨db, opened, run, stores, ready⟩ := PerfDb.open_blank Bincode.formats .stored
    ⟨"data", "wal", 1024, .none⟩ Disk.fresh_blank
  obtain ⟨path, world, written, _⟩ := PerfDb.snapshot_returns Bincode.snapshotFormat .stored
    (afterCalls_keeps Bincode.format (P := fun _ world => world.Healthy)
      (fun _ _ _ healthy => healthy) (fun _ _ _ healthy => healthy)
      (fun _ _ _ _ _ healthy => healthy) _ ready.snapshots)
  exact ⟨db, opened, path, _, run, written, snapshot_restores Bincode.formats
    Bincode.snapshotFormat_roundTrips .stored _ stores written⟩

end Perfdb
