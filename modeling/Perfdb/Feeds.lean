import Mathlib
import Perfdb.OperationEffects
import Perfdb.RecoveryCheckpoint

set_option autoImplicit false

namespace Perfdb

/-- What the ticks of one market leave: those that are stored, the candles in progress and the
candles that are stored. -/
@[ext]
structure Chart where
  ticks : List PriceTick
  buffers : Timeframe → Option CandleBuffer
  candles : Timeframe → List CandleRecord

/-- A tick is stored, and it closes candles or extends those in progress. -/
def Chart.take (tick : PriceTick) (chart : Chart) : Chart where
  ticks := chart.ticks ++ [tick]
  buffers tf := some (CandleBuilder.tickBuffer tick tf (chart.buffers tf)).1
  candles tf := chart.candles tf ++ CandleBuilder.closedBy tick tf (chart.buffers tf)

namespace PerfDb

def charts (db : PerfDb) (marketId : MarketId) : Chart where
  ticks := db.tickStore.ticks marketId
  buffers tf := db.candleBuilder.buffer marketId tf
  candles tf := db.candles marketId tf

/-- The stores agree, and every market has the same ticks and candles, those in progress
included. -/
structure SameOutcome (left right : PerfDb) : Prop where
  stores : left.toStores.SameOutcome right.toStores
  charts : left.charts = right.charts

theorem Ticked.charts {tick : PriceTick} {before after : PerfDb} (ticked : Ticked tick before after)
    (known : tick.marketId.toNat < marketCount) : after.charts =
      Function.update before.charts tick.marketId
        ((before.charts tick.marketId).take tick) := by
  funext marketId
  have spec := fun tf => before.candleBuilder.onTick_spec tick marketId tf known
  have whole : after.charts marketId = ⟨before.tickStore.ticks marketId ++
      (if tick.marketId = marketId then [tick] else []),
      fun tf => if tick.marketId = marketId then
        some (CandleBuilder.tickBuffer tick tf (before.candleBuilder.buffer marketId tf)).1
        else before.candleBuilder.buffer marketId tf,
      fun tf => before.candles marketId tf ++ if tick.marketId = marketId then
        CandleBuilder.closedBy tick tf (before.candleBuilder.buffer marketId tf) else []⟩ := by
    refine Chart.ext (ticked.ticks marketId) (funext fun tf => ?_) (funext fun tf => ?_)
    · change after.candleBuilder.buffer marketId tf = _
      rw [ticked.candleBuilder, (spec tf).1]
    · change after.candles marketId tf = _
      rw [ticked.candles, (spec tf).2.1]
  rw [whole]
  by_cases here : tick.marketId = marketId
  · subst here
    rw [Function.update_self]
    simp only [if_true]
    rfl
  · rw [Function.update_of_ne (Ne.symm here)]
    simp only [here, if_false, List.append_nil]
    rfl

theorem applyEvent_charts (indexed : IndexedEvent) (db : PerfDb) :
    (db.applyEvent indexed).charts = db.charts := by
  have shell := applyEvent_shell indexed db
  funext marketId
  simp only [charts, candles, shell.tickStore, shell.candleStore, shell.candleBuilder]

end PerfDb

namespace Feed

/-- How the engine takes an item. -/
def call : Feed → EngineCall
  | .event indexed => .event indexed
  | .tick sample => .tick sample

def onCharts : Feed → (MarketId → Chart) → MarketId → Chart
  | .event _, charts => charts
  | .tick sample, charts =>
      Function.update charts sample.marketId ((charts sample.marketId).take sample)

/-- What it does to the stores. -/
def apply : Feed → PerfDb → PerfDb
  | .event indexed, db => db.applyEvent indexed
  | .tick sample, db => db.setTickPrice sample

/-- Independent events, ticks of two markets, or an event and a tick. -/
def Independent : Feed → Feed → Prop
  | .event one, .event other => one.event.Independent other.event
  | .tick one, .tick other => one.marketId ≠ other.marketId
  | .event _, .tick _ | .tick _, .event _ => True

theorem Independent.symm {one other : Feed} (independent : one.Independent other) :
    other.Independent one := by
  cases one <;> cases other
  · exact Event.Independent.symm independent
  · trivial
  · trivial
  · exact Ne.symm independent

def Dependent (one other : Feed) : Prop := one = other ∨ ¬ one.Independent other

theorem not_dependent {one other : Feed} (apart : one ≠ other)
    (independent : one.Independent other) : ¬ one.Dependent other := by
  rintro (same | dependent)
  · exact apart same
  · exact dependent independent

instance : DecidableEq Feed
  | .event one, .event other => decidable_of_iff (one = other) (by simp)
  | .tick one, .tick other => decidable_of_iff (one = other) (by simp)
  | .event _, .tick _ => isFalse (by simp)
  | .tick _, .event _ => isFalse (by simp)

end Feed

theorem MarketStateTable.change_setPrice (table : MarketStateTable)
    (change : Option (MarketId × MarketChange)) (marketId : MarketId) (price : F64)
    (timestampNs : UInt64) :
    (table.setPrice marketId price timestampNs).change change =
      (table.change change).setPrice marketId price timestampNs := by
  cases change with
  | none => rfl
  | some named =>
      simp only [change, setPrice, withInner, withSlot]
      exact congrArg MarketStateTable.mk (modifySlot_comm _ _ _ fun _ _ => rfl)

theorem MarketStateTable.setPrice_comm (table : MarketStateTable) {one other : PriceTick}
    (apart : one.marketId ≠ other.marketId) :
    (table.setPrice one.marketId one.price one.timestampNs).setPrice other.marketId other.price
        other.timestampNs =
      (table.setPrice other.marketId other.price other.timestampNs).setPrice one.marketId
        one.price one.timestampNs := by
  simp only [setPrice, withSlot]
  refine congrArg MarketStateTable.mk (modifySlot_comm _ _ _ fun same _ => ?_)
  exact absurd (UInt16.toNat_inj.mp same) apart

theorem applyEvent_setTickPrice (indexed : IndexedEvent) (sample : PriceTick) (db : PerfDb) :
    ((db.setTickPrice sample).applyEvent indexed).toStores.SameOutcome
      ((db.applyEvent indexed).setTickPrice sample).toStores := by
  have before := applyEvent_effects indexed (db.setTickPrice sample)
  have after := applyEvent_effects indexed db
  refine ⟨?_, ?_, ?_, fun marketId isLong price => ?_, ?_, ?_, ?_, ?_, ?_⟩
  · rw [applyEvent_positions]
    exact (applyEvent_positions indexed db).symm
  · rw [before.orders]
    exact congrArg OrderTable.orders after.orders.symm
  · rw [before.orders]
    exact congrArg OrderTable.byUser after.orders.symm
  · rw [before.orders]
    exact congrArg (fun (table : OrderTable) => table.levelSet marketId isLong price)
      after.orders.symm
  · rw [before.balances]
    exact after.balances.symm
  · rw [before.users]
    exact after.users.symm
  · rw [before.traderStats]
    exact after.traderStats.symm
  · rw [applyEvent_dailyStats]
    exact (applyEvent_dailyStats indexed db).symm
  · rw [applyEvent_markets]
    refine (MarketStateTable.change_setPrice db.marketState _ _ _ _).trans ?_
    exact congrArg (fun table => MarketStateTable.setPrice table sample.marketId sample.price
      sample.timestampNs) (applyEvent_markets indexed db).symm

section Steps

variable {one other : Feed}

open Concurrent in
/-- An event keeps stores with the same outcome, as its operations do. -/
theorem applyEvent_congr (indexed : IndexedEvent) {left right : PerfDb}
    (same : left.toStores.SameOutcome right.toStores) :
    (left.applyEvent indexed).toStores.SameOutcome (right.applyEvent indexed).toStores := by
  have follow (made : List Operation) {s t : Stores × Private} (outcome : s.1.SameOutcome t.1)
      (read : s.2 = t.2) :
      (made.foldl (alone indexed) s).1.SameOutcome (made.foldl (alone indexed) t).1 := by
    induction made generalizing s t with
    | nil => exact outcome
    | cons operation made ih =>
        refine ih ?_ ?_
        · rw [alone, alone, read]
          exact Effect.apply_congr _ outcome
        · rw [alone, alone, read]
          exact Operation.learn_congr operation _ outcome
  have whole := follow (operations indexed) (s := (left.toStores, ⟨none, none, none⟩))
    (t := (right.toStores, ⟨none, none, none⟩)) same rfl
  rwa [operations_alone, operations_alone] at whole

theorem Feed.apply_congr (item : Feed) {left right : PerfDb}
    (same : left.toStores.SameOutcome right.toStores) :
    (item.apply left).toStores.SameOutcome (item.apply right).toStores := by
  cases item with
  | event indexed => exact applyEvent_congr indexed same
  | tick sample =>
      refine ⟨same.positions, same.orders, same.ordersOfUser, same.levels, same.balances,
        same.users, same.traderStats, same.dailyStats, ?_⟩
      exact congrArg (fun table => MarketStateTable.setPrice table sample.marketId sample.price
        sample.timestampNs) same.markets

theorem Feed.apply_comm (independent : one.Independent other) (db : PerfDb) :
    (other.apply (one.apply db)).toStores.SameOutcome
      (one.apply (other.apply db)).toStores := by
  cases one with
  | event first =>
      cases other with
      | event second => exact applyEvent_comm independent db
      | tick sample => exact Concurrent.sameOutcome_symm (applyEvent_setTickPrice first sample db)
  | tick sample =>
      cases other with
      | event second => exact applyEvent_setTickPrice second sample db
      | tick later =>
          refine ⟨rfl, rfl, rfl, fun _ _ _ => rfl, rfl, rfl, rfl, rfl, ?_⟩
          exact MarketStateTable.setPrice_comm db.marketState independent

end Steps

theorem Feed.foldl_toStores (items : List Feed) {left right : PerfDb}
    (same : left.toStores = right.toStores) :
    (items.foldl (fun db item => item.apply db) left).toStores =
      (items.foldl (fun db item => item.apply db) right).toStores := by
  induction items generalizing left right with
  | nil => exact same
  | cons item items ih =>
      refine ih ?_
      cases item with
      | event indexed => exact PerfDb.applyEvent_toStores indexed same
      | tick sample => exact congrArg (fun (stores : Stores) => { stores with
          marketState := stores.marketState.setPrice sample.marketId sample.price
            sample.timestampNs }) same

theorem Feed.onCharts_comm {one other : Feed} (independent : one.Independent other)
    (charts : MarketId → Chart) :
    other.onCharts (one.onCharts charts) = one.onCharts (other.onCharts charts) := by
  cases one with
  | event => rfl
  | tick sample =>
      cases other with
      | event => rfl
      | tick later =>
          have apart : sample.marketId ≠ later.marketId := independent
          simp only [onCharts, Function.update_of_ne apart, Function.update_of_ne apart.symm]
          exact Function.update_comm apart _ _ _

/-- A feed that is taken applies its items in turn, to the stores and to the charts. -/
theorem runCalls_feed {fmt : Wal.Format} (items : List Feed) {r t : Running}
    (run : runCalls fmt (items.map Feed.call) r = .ok () t) :
    t.db.toStores = (items.foldl (fun db item => item.apply db) r.db).toStores ∧
      t.db.charts = items.foldl (fun charts item => item.onCharts charts) r.db.charts := by
  induction items generalizing r with
  | nil =>
      obtain ⟨_, rfl⟩ : () = () ∧ r = t := EStateM.Result.ok.inj run
      exact ⟨rfl, rfl⟩
  | cons item items ih =>
      obtain ⟨_, u, first, rest⟩ := bind_ok run
      obtain ⟨stores, charts⟩ := ih rest
      have one : u.db.toStores = (item.apply r.db).toStores ∧
          u.db.charts = item.onCharts r.db.charts := by
        cases item with
        | event indexed =>
            obtain ⟨s, _, rfl⟩ := PerfDb.processEvent_ok first
            exact ⟨PerfDb.applyEvent_toStores indexed rfl, PerfDb.applyEvent_charts indexed _⟩
        | tick sample =>
            obtain ⟨outputs, v, ingested, last⟩ := bind_ok first
            obtain ⟨_, rfl⟩ : () = () ∧ v = u := EStateM.Result.ok.inj last
            obtain ⟨_, _, _, _, known, ticked⟩ := PerfDb.ingestTick_ok ingested
            exact ⟨ticked.stores, ticked.charts known⟩
      rw [stores, charts, List.foldl_cons, List.foldl_cons, ← one.2]
      exact ⟨Feed.foldl_toStores items one.1, rfl⟩

/-- Two feeds of the same items, those that depend on each other in the same order, come to the
same outcome. -/
theorem dependent_order_decides (fmt : Wal.Format) (one other : List Feed) (r t u : Running)
    (ordered : Reordering.SameOrder Feed.Dependent one other)
    (forth : runCalls fmt (one.map Feed.call) r = .ok () t)
    (back : runCalls fmt (other.map Feed.call) r = .ok () u) :
    t.db.SameOutcome u.db := by
  have moved := ordered.reordered fun _ => Or.inl rfl
  obtain ⟨stores, charts⟩ := runCalls_feed one forth
  obtain ⟨stores', charts'⟩ := runCalls_feed other back
  constructor
  · rw [stores, stores']
    exact @Reordering.Reordered.foldl _ _ (fun db item => item.apply db) _
      (fun left right => left.toStores.SameOutcome right.toStores) _ _ moved
      (fun db => Concurrent.sameOutcome_refl db.toStores)
      (fun _ _ _ => Concurrent.sameOutcome_trans)
      (fun item _ _ _ same => item.apply_congr same)
      (fun _ _ _ _ apart db => Feed.apply_comm (not_not.mp fun here => apart (Or.inr here)) db)
      r.db
  · rw [charts, charts']
    exact @Reordering.Reordered.foldl _ _ (fun charts item => item.onCharts charts) _ Eq _ _ moved
      (fun _ => rfl) (fun _ _ _ => Eq.trans)
      (fun item _ _ _ same => congrArg item.onCharts same)
      (fun _ _ _ _ apart charts =>
        Feed.onCharts_comm (not_not.mp fun here => apart (Or.inr here)) charts)
      r.db.charts

/-- Without I/O errors a feed with ticks of known markets is taken. -/
theorem runCalls_returns (fmt : Wal.Format) (items : List Feed)
    (known : ∀ sample, .tick sample ∈ items → sample.marketId.toNat < marketCount) {r : Running}
    (ready : r.Ready) : ∃ t, runCalls fmt (items.map Feed.call) r = .ok () t := by
  induction items generalizing r with
  | nil => exact ⟨r, rfl⟩
  | cons item items ih =>
      have rest := fun sample member => known sample (List.mem_cons_of_mem item member)
      cases item with
      | event indexed =>
          obtain ⟨s, logged, keep⟩ := ready.logs fmt (.indexedEvent indexed)
          obtain ⟨u, first, log, snapshots, _⟩ := PerfDb.processEvent_of_log logged
          obtain ⟨t, last⟩ := ih rest (keep u log snapshots)
          exact ⟨t, (bind_of_ok first).trans last⟩
      | tick sample =>
          obtain ⟨s, logged, keep⟩ := ready.logs fmt
            (.priceTick sample.timestampNs sample.marketId sample.price)
          obtain ⟨u, ingested, log, snapshots, _⟩ :=
            PerfDb.ingestTick_of_log logged (known sample List.mem_cons_self)
          obtain ⟨t, last⟩ := ih rest (keep u log snapshots)
          have first : EngineCall.run fmt (.tick sample) r = .ok () u := bind_of_ok ingested
          exact ⟨t, (bind_of_ok first).trans last⟩

/-- A deposit, two ticks of one market and one of another. -/
def mixedFeed : List Feed :=
  [.event ⟨5, 1700000000, Vector.replicate 32 0, 0, 0,
      .collateralDeposited (Vector.replicate 20 1) (Vector.replicate 20 9) 100⟩,
    .tick ⟨1000000000, 3, Vector.replicate 6 0, ⟨0x4059000000000000⟩⟩,
    .tick ⟨1000000000, 5, Vector.replicate 6 0, ⟨0x4057000000000000⟩⟩,
    .tick ⟨2000000000, 3, Vector.replicate 6 0, ⟨0x4058000000000000⟩⟩]

/-- The same, the other market first and the deposit last. -/
def movedFeed : List Feed :=
  [.tick ⟨1000000000, 5, Vector.replicate 6 0, ⟨0x4057000000000000⟩⟩,
    .tick ⟨1000000000, 3, Vector.replicate 6 0, ⟨0x4059000000000000⟩⟩,
    .tick ⟨2000000000, 3, Vector.replicate 6 0, ⟨0x4058000000000000⟩⟩,
    .event ⟨5, 1700000000, Vector.replicate 32 0, 0, 0,
      .collateralDeposited (Vector.replicate 20 1) (Vector.replicate 20 9) 100⟩]

theorem mixedFeed_ordered : Reordering.SameOrder Feed.Dependent mixedFeed movedFeed := by
  refine Reordering.Reordered.sameOrder ?_ ?_
  · refine Relation.ReflTransGen.trans (Reordering.reordered_past [_, _, _] [] ?_)
      (Reordering.reordered_past [_] [_, _] ?_)
    · intro item member
      simp only [List.mem_cons, List.not_mem_nil, or_false] at member
      rcases member with rfl | rfl | rfl <;> exact Feed.not_dependent (by simp) trivial
    · intro item member
      obtain rfl := List.mem_singleton.mp member
      exact Feed.not_dependent (by decide) (by unfold Feed.Independent; decide)
  · rintro x y (same | dependent)
    · exact Or.inl same.symm
    · exact Or.inr fun independent => dependent independent.symm

theorem dependent_order_decides_mixed :
    ∃ db opened t u, PerfDb.open_ Bincode.formats .stored ⟨"data", "wal", 1024, .none⟩ .fresh =
        .ok db opened ∧
      runCalls Bincode.format (mixedFeed.map Feed.call) (opened.running db) = .ok () t ∧
      runCalls Bincode.format (movedFeed.map Feed.call) (opened.running db) = .ok () u ∧
      t.db.SameOutcome u.db := by
  obtain ⟨db, opened, run, stores, ready⟩ := PerfDb.open_blank Bincode.formats .stored
    ⟨"data", "wal", 1024, .none⟩ Disk.fresh_blank
  obtain ⟨t, forth⟩ := runCalls_returns Bincode.format mixedFeed
    (by simp [mixedFeed, marketCount]) ready
  obtain ⟨u, back⟩ := runCalls_returns Bincode.format movedFeed
    (by simp [movedFeed, marketCount]) ready
  exact ⟨db, opened, t, u, run, forth, back,
    dependent_order_decides Bincode.format _ _ _ t u mixedFeed_ordered forth back⟩

end Perfdb
