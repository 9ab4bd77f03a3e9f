import Mathlib
import Perfdb.EngineCalls
import Perfdb.SnapshotFiles

set_option autoImplicit false

namespace Perfdb

def replayEntries (snapBlock : UInt64) (entries : List WalEntry) (stores : Stores) : Stores :=
  entries.foldl (fun stores entry => replayWalEntry snapBlock entry stores) stores

theorem replayEntries_append (snapBlock : UInt64) (front back : List WalEntry)
    (stores : Stores) : replayEntries snapBlock (front ++ back) stores =
      replayEntries snapBlock back (replayEntries snapBlock front stores) :=
  List.foldl_append

def snapBlockOf (latest : Option StateSnapshot) : UInt64 :=
  (latest.map fun snap => snap.checkpoint.lastBlock).getD 0

/-- The stores before the log is replayed. -/
def restored (latest : Option StateSnapshot) : Stores :=
  (latest.map fun snap => restoreSnapshot snap .new).getD .new

/-- The stores that come out of a snapshot and a log. -/
def recovered (latest : Option StateSnapshot) (entries : List WalEntry) : Stores :=
  replayEntries (snapBlockOf latest) entries (restored latest)

/-- A disk with a whole log of `entries` and a whole latest snapshot, in an environment
where no call fails. -/
structure Disk.Stands (fmts : Formats) (disk : Disk) (latest : Option StateSnapshot)
    (entries : List WalEntry) : Prop where
  clean : Wal.Clean fmts.wal disk.log.dir entries
  latest : Snapshot.Latest fmts.snapshot disk.snapshots.dir latest
  log : disk.log.Healthy
  snapshots : disk.snapshots.Healthy

/-- A disk nothing has been stored on. -/
structure Disk.Blank (disk : Disk) : Prop where
  log : ∀ name ∈ disk.log.dir, numberOf "wal_" ".bin" name = none
  snapshots : ∀ name ∈ disk.snapshots.dir, Snapshot.blockOf name = none
  ticks : disk.ticks = .new
  candles : disk.candles = .new
  healthyLog : disk.log.Healthy
  healthySnapshots : disk.snapshots.Healthy

theorem Disk.Blank.stands {disk : Disk} (blank : disk.Blank) (fmts : Formats) :
    disk.Stands fmts none [] :=
  ⟨Wal.clean_of_fresh blank.log, Snapshot.latest_of_fresh _ blank.snapshots, blank.healthyLog,
    blank.healthySnapshots⟩

theorem Disk.fresh_blank : Disk.fresh.Blank where
  log name member := (Std.ExtTreeMap.not_mem_empty member).elim
  snapshots name member := (Std.ExtTreeMap.not_mem_empty member).elim
  ticks := rfl
  candles := rfl
  healthyLog v member := by cases member
  healthySnapshots v member := by cases member

theorem foldlM_ok {ε α β : Type} (step : β → α → β) (items : List α) (start : β) :
    items.foldlM (fun acc item => (.ok (step acc item) : Except ε β)) start =
      .ok (items.foldl step start) := by
  induction items generalizing start with
  | nil => rfl
  | cons item items ih => exact ih (step start item)

/-- A disk whose snapshot can be read and whose log can be opened and replayed. -/
theorem PerfDb.open_of_delivers {fmts : Formats} {order : Iteration} {config : PerfDbConfig}
    {disk : Disk} {latest : Option StateSnapshot} {entries : List WalEntry}
    {wal : Wal.WalWriter} {log : World}
    (loaded : Snapshot.loadLatestSnapshot fmts.snapshot order config.snapshotsDir
      disk.snapshots.dir = .ok latest)
    (opened : Wal.WalWriter.openLog order config.wal disk.log = .ok wal log)
    (delivers : Wal.Delivers fmts.wal order log.dir entries) :
    ∃ db, PerfDb.open_ fmts order config disk = .ok db { disk with log := log } ∧
      db.toStores = recovered latest entries ∧ db.config = config ∧ db.wal = wal := by
  have replayed := delivers Stores config.wal.dir
    (fun stores entry => .ok (replayWalEntry (snapBlockOf latest) entry stores)) (restored latest)
  rw [foldlM_ok] at replayed
  refine ⟨{ recovered latest entries with
    config
    tickStore := disk.ticks
    candleStore := disk.candles
    candleBuilder := seedBuilder disk.candles
    pubsub := .new
    wal }, ?_, rfl, rfl, rfl⟩
  simp only [snapBlockOf, restored] at replayed
  simp only [PerfDb.open_, loaded, opened]
  rw [replayed]
  rfl

theorem PerfDb.open_files {fmts : Formats} {order : Iteration} {config : PerfDbConfig}
    {disk later : Disk} {db : PerfDb}
    (opened : PerfDb.open_ fmts order config disk = .ok db later) :
    db.tickStore = disk.ticks ∧ db.candleStore = disk.candles ∧
      db.candleBuilder = seedBuilder disk.candles := by
  unfold PerfDb.open_ at opened
  split at opened
  · contradiction
  · split at opened
    · contradiction
    · simp only at opened
      split at opened
      · contradiction
      · obtain ⟨rfl, _⟩ := EStateM.Result.ok.inj opened
        exact ⟨rfl, rfl, rfl⟩

theorem PerfDb.open_log {fmts : Formats} {order : Iteration} {config : PerfDbConfig}
    {disk later : Disk} {db : PerfDb}
    (opened : PerfDb.open_ fmts order config disk = .ok db later) :
    ∃ log, Wal.WalWriter.openLog order config.wal disk.log = .ok db.wal log ∧
      later = { disk with log := log } := by
  unfold PerfDb.open_ at opened
  split at opened
  · contradiction
  · split at opened
    · contradiction
    · rename_i wal log openLog
      simp only at opened
      split at opened
      · contradiction
      · obtain ⟨rfl, rfl⟩ := EStateM.Result.ok.inj opened
        exact ⟨log, openLog, rfl⟩

/-- Opening rebuilds the stores from the latest snapshot and the log, and its log
goes on where it ended. -/
theorem PerfDb.open_returns {fmts : Formats} (order : Iteration) (config : PerfDbConfig)
    {disk : Disk} {latest : Option StateSnapshot} {entries : List WalEntry}
    (stands : disk.Stands fmts latest entries)
    (readable : ∀ snap, latest = some snap →
      fmts.snapshot.deserialize (fmts.snapshot.serialize snap) = .ok snap) :
    ∃ db later, PerfDb.open_ fmts order config disk = .ok db later ∧
      db.toStores = recovered latest entries ∧ db.config = config ∧
      db.candleStore = disk.candles ∧ db.candleBuilder = seedBuilder disk.candles ∧
      later.snapshots = disk.snapshots ∧ (later.running db).Logged fmts.wal entries := by
  obtain ⟨wal, log, opened, healthy⟩ :=
    Wal.openLog_ok order config.wal disk.log stands.log
  have delivers := (stands.clean.open_clean order config.wal disk.log opened).delivers order
  obtain ⟨db, run, stores, settings, rfl⟩ := PerfDb.open_of_delivers
    (stands.latest.load readable order config.snapshotsDir) opened delivers
  obtain ⟨_, candles, builder⟩ := PerfDb.open_files run
  exact ⟨db, _, run, stores, settings, candles, builder, rfl,
    stands.clean.open_holds order config.wal disk.log opened, healthy, stands.snapshots⟩

/-- A new database is empty and takes events and ticks. -/
theorem PerfDb.open_blank (fmts : Formats) (order : Iteration) (config : PerfDbConfig)
    {disk : Disk} (blank : disk.Blank) :
    ∃ db later, PerfDb.open_ fmts order config disk = .ok db later ∧ db.toStores = .new ∧
      (later.running db).Ready := by
  obtain ⟨db, later, run, stores, _, _, _, _, logged⟩ :=
    PerfDb.open_returns order config (blank.stands fmts) (fun snap some => by contradiction)
  exact ⟨db, later, run, stores, logged.ready⟩

@[simp] theorem candles_new (marketId : MarketId) (tf : Timeframe) :
    CandleStore.new.candles marketId tf = [] := by
  simp only [CandleStore.candles, CandleStore.new, Vector.getElem?_replicate]
  split <;> rfl

@[simp] theorem buffer_new (marketId : MarketId) (tf : Timeframe) :
    CandleBuilder.new.buffer marketId tf = none := by
  simp only [CandleBuilder.buffer, CandleBuilder.new, Vector.getElem?_replicate]
  split <;> rfl

theorem seedBuilder_new : seedBuilder .new = .new := by
  simp only [seedBuilder, CandleStore.latest, candles_new, List.getLast?_nil, List.foldl_fixed]

/-- Closing a database leaves its log and snapshots on the disk. -/
theorem Running.Logged.close {r : Running} {fmts : Formats} {latest : Option StateSnapshot}
    {entries : List WalEntry} (logged : r.Logged fmts.wal entries)
    (files : Snapshot.Latest fmts.snapshot r.snapshots.dir latest) :
    r.close.Stands fmts latest entries :=
  ⟨logged.holds.clean, files, logged.log, logged.snapshots⟩

end Perfdb
