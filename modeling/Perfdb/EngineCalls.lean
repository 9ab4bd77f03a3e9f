import Mathlib
import Perfdb.CandleOutputs
import Perfdb.Engine
import Perfdb.WalSession

set_option autoImplicit false

namespace Perfdb

variable {r t : Running}

theorem onWal_ok {α : Type} {operation : Wal.WalM α} {value : α}
    (run : onWal operation r = .ok value t) :
    ∃ s, operation r.walState = .ok value s ∧ t = r.setWalState s := by
  unfold onWal at run
  split at run
  · rename_i result s inner
    simp only [EStateM.Result.ok.injEq] at run
    obtain ⟨rfl, rfl⟩ := run
    exact ⟨s, inner, rfl⟩
  · contradiction

namespace PerfDb

theorem processEvent_ok {fmt : Wal.Format} {indexed : IndexedEvent}
    (run : processEvent fmt indexed r = .ok () t) :
    ∃ s, Wal.append fmt (.indexedEvent indexed) r.walState = .ok () s ∧
      t = (r.setWalState s).mapDb (applyEvent indexed) := by
  obtain ⟨_, u, logged, applied⟩ := bind_ok run
  obtain ⟨s, appended, rfl⟩ := onWal_ok logged
  simp only [modify, modifyGet, MonadStateOf.modifyGet, EStateM.modifyGet,
    EStateM.Result.ok.injEq, true_and] at applied
  exact ⟨s, appended, applied.symm⟩

/-- Nothing but stores and the bus differs. -/
structure SameShell (before after : PerfDb) : Prop where
  config : after.config = before.config
  wal : after.wal = before.wal
  tickStore : after.tickStore = before.tickStore
  candleStore : after.candleStore = before.candleStore
  candleBuilder : after.candleBuilder = before.candleBuilder

theorem SameShell.of_publishFound {α : Type} {before after : PerfDb} {channel : Channel}
    {message : α → PubSubMessage} {found : Option α} (same : SameShell before after) :
    SameShell before (after.publishFound channel message found) := by
  cases found with
  | none => exact same
  | some value => exact ⟨same.config, same.wal, same.tickStore, same.candleStore, same.candleBuilder⟩

theorem applyEvent_shell (indexed : IndexedEvent) (db : PerfDb) :
    SameShell db (applyEvent indexed db) := by
  have advance (later : PerfDb) (same : SameShell db later) (checkpoint : CheckpointStore) :
      SameShell db { later with checkpoint := checkpoint } :=
    ⟨same.config, same.wal, same.tickStore, same.candleStore, same.candleBuilder⟩
  unfold applyEvent
  refine advance _ ?_ _
  dsimp only
  split <;> try exact ⟨rfl, rfl, rfl, rfl, rfl⟩
  · split <;> exact ⟨rfl, rfl, rfl, rfl, rfl⟩
  all_goals exact SameShell.of_publishFound ⟨rfl, rfl, rfl, rfl, rfl⟩

@[simp] theorem publishFound_toStores {α : Type} (db : PerfDb) (channel : Channel)
    (message : α → PubSubMessage) (found : Option α) :
    (db.publishFound channel message found).toStores = db.toStores := by
  cases found <;> rfl

theorem applyEvent_toStores (indexed : IndexedEvent) {left right : PerfDb}
    (same : left.toStores = right.toStores) :
    (applyEvent indexed left).toStores = (applyEvent indexed right).toStores := by
  obtain ⟨stores, _⟩ := left
  obtain ⟨_, _⟩ := right
  obtain rfl := same
  obtain ⟨blockNumber, blockTimestamp, txHash, txIndex, logIndex, event⟩ := indexed
  cases event with
  | positionClosed =>
      simp only [applyEvent]
      split <;> rfl
  | _ => simp only [applyEvent, publishFound_toStores]

theorem setTickPrice_toStores (tick : PriceTick) {left right : PerfDb}
    (same : left.toStores = right.toStores) :
    (setTickPrice tick left).toStores = (setTickPrice tick right).toStores := by
  obtain ⟨stores, _⟩ := left
  obtain ⟨_, _⟩ := right
  obtain rfl := same
  rfl

end PerfDb

namespace World

variable {world : World}

theorem Healthy.verdict (healthy : world.Healthy) : world.verdict = .ok := by
  unfold World.verdict
  cases pending : world.verdicts with
  | nil => rfl
  | cons first rest => exact healthy first (by rw [pending]; exact List.mem_cons_self)

theorem Healthy.served (healthy : world.Healthy) : world.served.Healthy :=
  fun v member => healthy v (List.mem_of_mem_tail member)

end World

theorem writeFile_ok {ε : Type} (reason : ε) (name : String) (data : Bytes) (world : World)
    (healthy : world.Healthy) :
    ∃ later, writeFile reason name data world = .ok () later ∧ later.Healthy := by
  let created : World := { world.served with dir := world.served.dir.insert name ⟨[], []⟩ }
  have first := healthy.verdict
  have calm : created.Healthy := healthy.served
  have second : World.verdict { world.served with
      dir := world.served.dir.insert name ⟨[], []⟩ } = .ok := calm.verdict
  refine ⟨{ created.served with dir := created.served.dir.insert name ⟨[], data⟩ }, ?_,
    calm.served⟩
  simp only [writeFile, first, second]
  rfl

/-- A file that has been written holds what was written to it. -/
theorem writeFile_dir {ε : Type} {reason : ε} {name : String} {data : Bytes} {world later : World}
    (written : writeFile reason name data world = .ok () later) :
    later.dir = world.dir.insert name ⟨[], data⟩ := by
  unfold writeFile at written
  dsimp only at written
  split at written <;> try contradiction
  split at written <;> try contradiction
  obtain rfl := (EStateM.Result.ok.inj written).2
  change (world.dir.insert name ⟨[], []⟩).insert name ⟨[], data⟩ = _
  apply Std.ExtTreeMap.ext_getElem?
  intro other
  simp only [Table.getElem?_insert]
  split <;> rfl

/-- The log is open, and no call will fail. -/
structure Running.Ready (r : Running) : Prop where
  opened : r.db.wal.writer.file ∈ r.log.dir
  log : r.log.Healthy
  snapshots : r.snapshots.Healthy

/-- The log of a running database stands for `entries`, and no call will fail. -/
structure Running.Logged (fmt : Wal.Format) (r : Running) (entries : List WalEntry) : Prop where
  holds : r.walState.Holds fmt entries
  log : r.log.Healthy
  snapshots : r.snapshots.Healthy

structure PerfDb.Ticked (tick : PriceTick) (before after : PerfDb) : Prop where
  stores : after.toStores = (before.setTickPrice tick).toStores
  config : after.config = before.config
  ticks : ∀ marketId, after.tickStore.ticks marketId =
    before.tickStore.ticks marketId ++ if tick.marketId = marketId then [tick] else []
  candleBuilder : after.candleBuilder = (before.candleBuilder.onTick tick).1
  candles : ∀ marketId tf, after.candles marketId tf = before.candles marketId tf ++
    (before.candleBuilder.onTick tick).2.filterMap (CandleOutput.closedFor marketId tf)

section Calls

variable {fmt : Wal.Format} {entries : List WalEntry}

theorem Running.Ready.logs (ready : r.Ready) (fmt : Wal.Format) (entry : WalEntry) :
    ∃ s, Wal.append fmt entry r.walState = .ok () s ∧
      ∀ later : Running, later.walState = s → later.snapshots = r.snapshots → later.Ready := by
  obtain ⟨s, appended, grew, healthy⟩ :=
    Wal.append_ok fmt r.walState entry ready.opened ready.log
  refine ⟨s, appended, fun later same snapshots => ?_⟩
  subst same
  exact ⟨grew.opened, healthy, snapshots ▸ ready.snapshots⟩

theorem Running.Logged.logs (logged : r.Logged fmt entries) {entry : WalEntry}
    (sound : fmt.framing.Sound entry) :
    ∃ s, Wal.append fmt entry r.walState = .ok () s ∧
      ∀ later : Running, later.walState = s → later.snapshots = r.snapshots →
        later.Logged fmt (entries ++ [entry]) := by
  obtain ⟨s, appended, holds, healthy⟩ :=
    Wal.append_holds r.walState sound logged.holds logged.log
  refine ⟨s, appended, fun later same snapshots => ?_⟩
  subst same
  exact ⟨holds, healthy, snapshots ▸ logged.snapshots⟩

theorem Running.Logged.ready (logged : r.Logged fmt entries) : r.Ready := by
  obtain ⟨_, layout, _⟩ := logged.holds
  exact ⟨layout.opened, logged.log, logged.snapshots⟩

theorem onWal_of_ok {operation : Wal.WalM Unit} {s : Wal.WalState}
    (run : operation r.walState = .ok () s) : onWal operation r = .ok () (r.setWalState s) := by
  simp only [onWal, run]

namespace PerfDb

theorem processEvent_of_log {indexed : IndexedEvent} {s : Wal.WalState}
    (logged : Wal.append fmt (.indexedEvent indexed) r.walState = .ok () s) :
    ∃ later, processEvent fmt indexed r = .ok () later ∧ later.walState = s ∧
      later.snapshots = r.snapshots ∧ later.db.config = r.db.config ∧
      later.db.toStores = (applyEvent indexed r.db).toStores := by
  refine ⟨(r.setWalState s).mapDb (applyEvent indexed), ?_, ?_, rfl, ?_, ?_⟩
  · rw [processEvent, bind_of_ok (onWal_of_ok logged)]
    rfl
  · simp only [Running.walState, Running.mapDb, (applyEvent_shell indexed _).wal]
    rfl
  · exact (applyEvent_shell indexed _).config
  · exact applyEvent_toStores indexed rfl

theorem appendClosed_returns (outputs : List CandleOutput)
    (storable : ∀ output ∈ outputs, output.Storable) (r : Running) :
    ∃ store, appendClosed outputs r =
        .ok () (r.mapDb fun db => { db with candleStore := store }) ∧
      ∀ marketId tf, store.candles marketId tf = r.db.candles marketId tf ++
        outputs.filterMap (CandleOutput.closedFor marketId tf) := by
  induction outputs generalizing r with
  | nil => exact ⟨r.db.candleStore, rfl, fun marketId tf => (List.append_nil _).symm⟩
  | cons output outputs ih =>
      have rest := fun other member => storable other (List.mem_cons_of_mem output member)
      cases output with
      | live candle =>
          obtain ⟨store, run, grown⟩ := ih rest r
          exact ⟨store, run, grown⟩
      | closed candle =>
          obtain ⟨valid, frame, same⟩ := storable _ List.mem_cons_self
          obtain ⟨first, stored, one⟩ := r.db.candleStore.append_ok valid same
          obtain ⟨store, run, grown⟩ :=
            ih rest (r.mapDb fun db => { db with candleStore := first })
          have step : tryDb (appendCandle candle) r =
              .ok () (r.mapDb fun db => { db with candleStore := first }) := by
            simp only [tryDb, appendCandle, stored]
            rfl
          refine ⟨store, ?_, fun marketId tf => ?_⟩
          · rw [appendClosed, bind_of_ok step, run]
            rfl
          · rw [grown]
            change first.candles marketId tf ++ _ = _
            rw [one, List.append_assoc, candles, List.filterMap_cons]
            cases CandleOutput.closedFor marketId tf (.closed candle) <;> rfl

/-- A tick of a known market that has been logged is taken. -/
theorem ingestTick_of_log {tick : PriceTick} {s : Wal.WalState}
    (logged : Wal.append fmt (.priceTick tick.timestampNs tick.marketId tick.price) r.walState =
      .ok () s) (valid : tick.marketId.toNat < marketCount) :
    ∃ later, ingestTick fmt tick r = .ok (r.db.candleBuilder.onTick tick).2 later ∧
      later.walState = s ∧ later.snapshots = r.snapshots ∧ Ticked tick r.db later.db := by
  obtain ⟨ticks, kept, more⟩ := (r.setWalState s).db.tickStore.append_ok valid
  have stored : tryDb (appendTick tick) (r.setWalState s) =
      .ok () ((r.setWalState s).mapDb fun db => { db with tickStore := ticks }) := by
    simp only [tryDb, appendTick, kept]
    rfl
  let priced := ((r.setWalState s).mapDb fun db => { db with tickStore := ticks }).mapDb
    (setTickPrice tick)
  let built := priced.mapDb fun db =>
    { db with candleBuilder := (db.candleBuilder.onTick tick).1 }
  have storable := (r.db.candleBuilder.onTick_spec tick tick.marketId .sec1 valid).2.2
  obtain ⟨store, closed, grown⟩ :=
    appendClosed_returns (r.db.candleBuilder.onTick tick).2 storable built
  refine ⟨(built.mapDb fun db => { db with candleStore := store }).mapDb fun db =>
    db.publish .prices (.priceUpdate tick.marketId tick.price tick.timestampNs), ?_, rfl, rfl,
    ⟨rfl, rfl, more, rfl, grown⟩⟩
  have set : (modify (Running.mapDb (setTickPrice tick)) : EngineM Unit)
      ((r.setWalState s).mapDb fun db => { db with tickStore := ticks }) = .ok () priced := rfl
  have build : buildCandles tick priced = .ok (r.db.candleBuilder.onTick tick).2 built := rfl
  rw [ingestTick, bind_of_ok (onWal_of_ok logged), bind_of_ok stored, bind_of_ok set,
    bind_of_ok build, bind_of_ok closed]
  rfl

/-- A call that returned has logged its tick and taken it. -/
theorem ingestTick_ok {tick : PriceTick} {outputs : List CandleOutput} {later : Running}
    (run : ingestTick fmt tick r = .ok outputs later) :
    ∃ s, Wal.append fmt (.priceTick tick.timestampNs tick.marketId tick.price) r.walState =
        .ok () s ∧ later.walState = s ∧ later.snapshots = r.snapshots ∧
      tick.marketId.toNat < marketCount ∧ Ticked tick r.db later.db := by
  obtain ⟨_, logged, logging, rest⟩ := bind_ok run
  obtain ⟨s, appended, rfl⟩ := onWal_ok logging
  by_cases valid : tick.marketId.toNat < marketCount
  · obtain ⟨returned, again, log, snapshots, ticked⟩ := ingestTick_of_log appended valid
    obtain ⟨_, rfl⟩ := EStateM.Result.ok.inj (run.symm.trans again)
    exact ⟨s, appended, log, snapshots, valid, ticked⟩
  · obtain ⟨_, stored, storing, _⟩ := bind_ok rest
    have refused : TickStore.append (r.setWalState s).db.tickStore tick = .error
        (.invalidArgument (toString "market_id " ++ toString tick.marketId.toNat ++
          " out of range (max " ++ toString (marketCount - 1) ++ ")")) :=
      if_pos (Nat.le_of_not_lt valid)
    rw [tryDb, appendTick, refused] at storing
    contradiction

/-- A snapshot leaves one file more, or a new one in place of one of the same block. -/
theorem snapshot_dir {snapshots : Snapshot.Format} {order : Iteration} {path : String}
    (written : snapshot snapshots order r = .ok path t) :
    t.snapshots.dir = r.snapshots.dir.insert
      (Snapshot.snapshotName r.db.checkpoint.lastBlock.toNat)
      ⟨[], snapshots.serialize (r.db.stateSnapshot order)⟩ := by
  unfold snapshot onSnapshots at written
  split at written <;> try contradiction
  rename_i result world inner
  obtain rfl := (EStateM.Result.ok.inj written).2
  obtain ⟨_, middle, wrote, rest⟩ := bind_ok inner
  obtain rfl := (EStateM.Result.ok.inj rest).2
  exact writeFile_dir wrote

/-- Without I/O errors a snapshot is written, and nothing else changes. -/
theorem snapshot_returns (snapshots : Snapshot.Format) (order : Iteration)
    (healthy : r.snapshots.Healthy) :
    ∃ path world, snapshot snapshots order r = .ok path { r with snapshots := world } ∧
      world.Healthy := by
  let name := Snapshot.snapshotName r.db.checkpoint.lastBlock.toNat
  obtain ⟨world, written, calm⟩ :=
    writeFile_ok
      (PerfDbError.io ("write snapshot: " ++ (r.db.config.snapshotsDir ++ "/" ++ name))) name
      (snapshots.serialize (r.db.stateSnapshot order)) r.snapshots healthy
  refine ⟨r.db.config.snapshotsDir ++ "/" ++ name, world, ?_, calm⟩
  have wrote : Snapshot.writeSnapshot snapshots r.db.config.snapshotsDir
      (r.db.stateSnapshot order) r.snapshots =
        .ok (r.db.config.snapshotsDir ++ "/" ++ name) world := by
    rw [Snapshot.writeSnapshot]
    exact bind_of_ok written
  simp only [snapshot, onSnapshots, wrote]

end PerfDb

end Calls

/-- The calls that change the stores. -/
inductive EngineCall where
  | event (indexed : IndexedEvent)
  | tick (tick : PriceTick)
  | checkpoint (block : UInt64) (hash : String) (timestamp : UInt64)

def EngineCall.run (fmt : Wal.Format) : EngineCall → EngineM Unit
  | .event indexed => PerfDb.processEvent fmt indexed
  | .tick sample => do
      let _ ← PerfDb.ingestTick fmt sample
      pure ()
  | .checkpoint block hash timestamp =>
      modify (Running.mapDb (PerfDb.saveCheckpoint block hash timestamp))

/-- The state after a list of calls, some of which may have failed. -/
def afterCalls (fmt : Wal.Format) (calls : List EngineCall) (r : Running) : Running :=
  calls.foldl (fun r call => stateOf (call.run fmt r)) r

section Keeps

/-- A property of the stores and of the snapshot directory. -/
def Running.Stored (P : Stores → World → Prop) (r : Running) : Prop := P r.db.toStores r.snapshots

variable {P : Stores → World → Prop} {fmt : Wal.Format}

/-- The log's writer is not one of the stores. -/
theorem onWal_keeps {α : Type} (operation : Wal.WalM α) :
    Triple (Running.Stored P) (onWal operation) (fun _ => Running.Stored P)
      (fun _ => Running.Stored P) := by
  intro r start
  unfold onWal
  cases operation r.walState <;> exact start

theorem tryDb_keeps {change : PerfDb → Except PerfDbError PerfDb}
    (frame : ∀ db later, change db = .ok later → later.toStores = db.toStores) :
    Triple (Running.Stored P) (tryDb change) (fun _ => Running.Stored P)
      (fun _ => Running.Stored P) := by
  intro r start
  unfold tryDb
  cases changed : change r.db with
  | error reason => exact start
  | ok db =>
      change P db.toStores r.snapshots
      rw [frame r.db db changed]
      exact start

theorem appendClosed_keeps (outputs : List CandleOutput) :
    Triple (Running.Stored P) (PerfDb.appendClosed outputs) (fun _ => Running.Stored P)
      (fun _ => Running.Stored P) := by
  induction outputs with
  | nil => exact fun r start => start
  | cons output outputs ih =>
      cases output with
      | live candle => exact ih
      | closed candle =>
          refine (tryDb_keeps fun db later stored => ?_).bind _ fun _ => ih
          simp only [PerfDb.appendCandle] at stored
          cases kept : db.candleStore.append candle with
          | error reason =>
              rw [kept] at stored
              cases stored
          | ok store =>
              rw [kept] at stored
              cases stored
              rfl

theorem processEvent_keeps {indexed : IndexedEvent}
    (step : ∀ (db : PerfDb) world, P db.toStores world → P (db.applyEvent indexed).toStores world) :
    Triple (Running.Stored P) (PerfDb.processEvent fmt indexed) (fun _ => Running.Stored P)
      (fun _ => Running.Stored P) :=
  (onWal_keeps _).bind _ fun _ => Triple.update fun r start => step r.db r.snapshots start

theorem ingestTick_keeps {tick : PriceTick}
    (step : ∀ (db : PerfDb) world, P db.toStores world → P (db.setTickPrice tick).toStores world) :
    Triple (Running.Stored P) (PerfDb.ingestTick fmt tick) (fun _ => Running.Stored P)
      (fun _ => Running.Stored P) := by
  refine (onWal_keeps _).bind _ fun _ => Triple.bind _ (tryDb_keeps fun db later stored => ?_) fun _ =>
    Triple.bind _ (Triple.update fun r start => step r.db r.snapshots start) fun _ =>
      Triple.bind _ (fun r start => start) fun outputs =>
        (appendClosed_keeps outputs).bind _ fun _ =>
          Triple.bind _ (Triple.update fun r start => start) fun _ => Triple.ret fun r start => start
  simp only [PerfDb.appendTick] at stored
  cases kept : db.tickStore.append tick with
  | error reason =>
      rw [kept] at stored
      cases stored
  | ok store =>
      rw [kept] at stored
      cases stored
      rfl

theorem stateOf_keeps {ε σ α : Type} {program : EStateM ε σ α} {holds : σ → Prop}
    (triple : Triple holds program (fun _ => holds) (fun _ => holds)) {s : σ} (start : holds s) :
    holds (stateOf (program s)) := by
  cases run : program s with
  | ok value t => exact triple.ok start run
  | error reason t => exact triple.error start run

theorem afterCalls_keeps (fmt : Wal.Format)
    (event : ∀ (db : PerfDb) world indexed, P db.toStores world →
      P (db.applyEvent indexed).toStores world)
    (tick : ∀ (db : PerfDb) world sample, P db.toStores world →
      P (db.setTickPrice sample).toStores world)
    (checkpoint : ∀ (db : PerfDb) world block hash timestamp, P db.toStores world →
      P (db.saveCheckpoint block hash timestamp).toStores world)
    (calls : List EngineCall) {r : Running} (start : r.Stored P) :
    (afterCalls fmt calls r).Stored P := by
  induction calls generalizing r with
  | nil => exact start
  | cons call calls ih =>
      refine ih ?_
      cases call with
      | event indexed =>
          exact stateOf_keeps (processEvent_keeps fun db world => event db world indexed) start
      | tick sample =>
          refine stateOf_keeps ?_ start
          exact (ingestTick_keeps fun db world => tick db world sample).bind _
            fun _ => Triple.ret fun _ kept => kept
      | checkpoint block hash timestamp =>
          exact checkpoint r.db r.snapshots block hash timestamp start

end Keeps

end Perfdb
