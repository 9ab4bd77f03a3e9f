import Mathlib
import Perfdb.CandleHistory
import Perfdb.ReplayAgreement
import Perfdb.WalCrash

set_option autoImplicit false

namespace Perfdb

/-- The disk after the crash. The file of each market has its first `kept` ticks. -/
structure Running.Crashed (r : Running) (kept : MarketId → Nat) (disk : Disk) : Prop where
  log : r.log.dir.CrashImage disk.log.dir
  healthy : disk.log.Healthy
  snapshots : disk.snapshots.dir = r.snapshots.dir
  ticks : ∀ marketId,
    disk.ticks.ticks marketId = (r.db.tickStore.ticks marketId).take (kept marketId)

/-- A disk with a whole log, all of it synced, and a latest snapshot that can be read. -/
structure Disk.Durable (fmts : Formats) (disk : Disk) (latest : Option StateSnapshot)
    (entries : List WalEntry) : Prop where
  clean : Wal.Clean fmts.wal disk.log.dir entries
  synced : ∀ id, disk.log.dir.durable (Wal.segmentName id) = Wal.segmentsOf disk.log.dir id
  readable : ∀ snap, latest = some snap →
    fmts.snapshot.deserialize (fmts.snapshot.serialize snap) = .ok snap
  latest : Snapshot.Latest fmts.snapshot disk.snapshots.dir latest

/-- A run of ticks whose calls returned leaves them in the synced log and in the tick files. -/
theorem ingestAll_kept {fmt : Wal.Format} (ticks : List PriceTick) {entries : List WalEntry}
    {r t : Running} (policy : r.db.wal.config.syncPolicy = .everyWrite)
    (sound : ∀ tick ∈ ticks, fmt.framing.Sound (Feed.tick tick).entry)
    (holds : r.walState.Holds fmt entries) (synced : r.walState.Synced)
    (run : ingestAll fmt ticks r = .ok () t) :
    (∃ all, t.walState.Holds fmt all) ∧ t.walState.Synced ∧ t.snapshots = r.snapshots ∧
      ∀ marketId, t.db.tickStore.ticks marketId =
        r.db.tickStore.ticks marketId ++ ticksOf marketId ticks := by
  induction ticks generalizing entries r with
  | nil =>
      obtain ⟨_, rfl⟩ := EStateM.Result.ok.inj run
      exact ⟨⟨entries, holds⟩, synced, rfl, fun marketId => (List.append_nil _).symm⟩
  | cons tick ticks ih =>
      obtain ⟨outputs, middle, first, rest⟩ := bind_ok run
      obtain ⟨s, appended, log, snapshots, _, ticked⟩ := PerfDb.ingestTick_ok first
      obtain ⟨last, layout, _⟩ := id holds
      obtain ⟨grew, durable⟩ :=
        (Wal.append_triple r.walState layout.opened fmt (Feed.tick tick).entry).ok rfl appended
      subst log
      have settings : middle.db.wal.config = r.db.wal.config := grew.config
      obtain ⟨kept, safe, files, more⟩ := ih (settings ▸ policy)
        (fun other member => sound other (List.mem_cons_of_mem tick member))
        (holds.push (sound tick List.mem_cons_self) grew) (durable policy synced) rest
      refine ⟨kept, safe, files.trans snapshots, fun marketId => ?_⟩
      rw [more, ticked.ticks, List.append_assoc]
      refine congrArg (r.db.tickStore.ticks marketId ++ ·) ?_
      by_cases market : tick.marketId = marketId <;> simp [ticksOf, market]

/-- After the crash the database opens again, with the ticks that its files kept: the others
are in the log, but replay leaves the tick files as they are. -/
theorem open_crashed {fmts : Formats} (inverse : fmts.wal.RoundTrips) {order : Iteration}
    {config : PerfDbConfig} (policy : config.wal.syncPolicy = .everyWrite) {disk : Disk}
    {latest : Option StateSnapshot} {entries : List WalEntry}
    (durable : disk.Durable fmts latest entries) {db : PerfDb} {opened : Disk}
    (run : PerfDb.open_ fmts order config disk = .ok db opened) {ticks : List PriceTick}
    (fits : ∀ tick ∈ ticks, fmts.wal.Fits (Feed.tick tick).entry) {r : Running}
    (acked : ingestAll fmts.wal ticks (opened.running db) = .ok () r) {kept : MarketId → Nat}
    {left : Disk} (crash : r.Crashed kept left) (listing : Iteration) :
    ∃ back later, PerfDb.open_ fmts listing config left = .ok back later ∧
      ∀ marketId, back.tickStore.ticks marketId =
        (db.tickStore.ticks marketId ++ ticksOf marketId ticks).take (kept marketId) := by
  obtain ⟨log, openLog, rfl⟩ := PerfDb.open_log run
  obtain ⟨settings, _⟩ := (Wal.openLog_triple order config.wal disk.log).ok rfl openLog
  let start := ({ disk with log := log } : Disk).running db
  have synced : start.walState.Synced := Wal.openLog_synced durable.clean.1 durable.synced openLog
  have holds : start.walState.Holds fmts.wal entries :=
    durable.clean.open_holds order config.wal disk.log openLog
  obtain ⟨⟨all, whole⟩, safe, snapshots, stored⟩ := ingestAll_kept ticks (settings ▸ policy)
    (fun tick member => inverse.sound (fits tick member)) holds synced acked
  obtain ⟨wal, reopened, openAgain, _⟩ :=
    Wal.openLog_ok listing config.wal left.log crash.healthy
  have delivers := Wal.openLog_delivers_of_idle whole safe crash.log openAgain listing
  have loaded := durable.latest.load durable.readable listing config.snapshotsDir
  have same : left.snapshots.dir = disk.snapshots.dir :=
    crash.snapshots.trans (congrArg World.dir snapshots)
  obtain ⟨back, again, _⟩ := PerfDb.open_of_delivers (same.symm ▸ loaded) openAgain delivers
  refine ⟨back, _, again, fun marketId => ?_⟩
  rw [(PerfDb.open_files again).1, crash.ticks, stored]
  rfl

/-- With a sync after every write, the acknowledged ticks are there after a crash exactly when
it took no tick file back. -/
theorem acknowledged_ticks_survive_iff (fmts : Formats) (inverse : fmts.wal.RoundTrips)
    (order : Iteration) (config : PerfDbConfig) (policy : config.wal.syncPolicy = .everyWrite)
    (disk : Disk) (latest : Option StateSnapshot) (entries : List WalEntry)
    (durable : disk.Durable fmts latest entries) (db : PerfDb) (opened : Disk)
    (run : PerfDb.open_ fmts order config disk = .ok db opened) (ticks : List PriceTick)
    (fits : ∀ tick ∈ ticks, fmts.wal.Fits (Feed.tick tick).entry) (r : Running)
    (acked : ingestAll fmts.wal ticks (opened.running db) = .ok () r) (kept : MarketId → Nat)
    (left : Disk) (crash : r.Crashed kept left) (listing : Iteration) :
    ∃ back later, PerfDb.open_ fmts listing config left = .ok back later ∧
      ((∀ marketId, marketId.toNat < marketCount → back.tickStore.ticks marketId =
          db.tickStore.ticks marketId ++ ticksOf marketId ticks) ↔
        ∀ marketId, marketId.toNat < marketCount →
          (db.tickStore.ticks marketId).length + (ticksOf marketId ticks).length ≤
            kept marketId) := by
  obtain ⟨back, later, again, stored⟩ :=
    open_crashed inverse policy durable run fits acked crash listing
  refine ⟨back, later, again, forall_congr' fun marketId => imp_congr_right fun _ => ?_⟩
  rw [stored, ← List.length_append]
  exact List.take_eq_self_iff _

def lostTick : PriceTick := ⟨1000000000, 3, Vector.replicate 6 0, ⟨0x4059000000000000⟩⟩

def syncedConfig : PerfDbConfig := ⟨"data", "wal", 1024, .everyWrite⟩

theorem fresh_durable : Disk.fresh.Durable Bincode.formats none [] where
  clean := (Disk.fresh_blank.stands Bincode.formats).clean
  synced id := rfl
  readable snap found := by contradiction
  latest := (Disk.fresh_blank.stands Bincode.formats).latest

theorem lostTick_fits :
    ∀ tick ∈ [lostTick], Bincode.formats.wal.Fits (Feed.tick tick).entry := by
  intro tick member
  rw [List.mem_singleton.mp member]
  unfold Wal.Format.Fits
  decide +kernel

/-- A new database takes the tick, and the crash leaves its file as it is, or empty. -/
theorem lostTick_crashed :
    ∃ db opened r, PerfDb.open_ Bincode.formats .stored syncedConfig .fresh = .ok db opened ∧
      ingestAll Bincode.format [lostTick] (opened.running db) = .ok () r ∧
      r.Crashed (fun _ => 1) ⟨⟨r.log.dir, [], []⟩, r.snapshots, r.db.tickStore, .new⟩ ∧
      r.Crashed (fun _ => 0) ⟨⟨r.log.dir, [], []⟩, r.snapshots, .new, .new⟩ := by
  obtain ⟨db, opened, run, _, ready⟩ :=
    PerfDb.open_blank Bincode.formats .stored syncedConfig Disk.fresh_blank
  obtain ⟨s, logged, _⟩ := ready.logs Bincode.format (Feed.tick lostTick).entry
  obtain ⟨r, ingested, _, _, ticked⟩ := PerfDb.ingestTick_of_log logged (by decide)
  have calm : (⟨r.log.dir, [], []⟩ : World).Healthy := fun v member => by cases member
  refine ⟨db, opened, r, run, ?_, ⟨Dir.crashImage_self _, calm, rfl, fun marketId => ?_⟩,
    ⟨Dir.crashImage_self _, calm, rfl, fun marketId => ?_⟩⟩
  · rw [ingestAll, bind_of_ok ingested]
    rfl
  · refine (List.take_of_length_le ?_).symm
    have empty : (opened.running db).db.tickStore = .new := (PerfDb.open_files run).1
    rw [ticked.ticks, empty, TickStore.ticks_new]
    split <;> simp
  · exact TickStore.ticks_new marketId

/-- The file of the market kept its tick. -/
theorem acknowledged_ticks_survive_iff_kept :
    ∃ db opened r left back later,
      PerfDb.open_ Bincode.formats .stored syncedConfig .fresh = .ok db opened ∧
      ingestAll Bincode.format [lostTick] (opened.running db) = .ok () r ∧
      r.Crashed (fun _ => 1) left ∧
      PerfDb.open_ Bincode.formats .stored syncedConfig left = .ok back later ∧
      ((∀ marketId : MarketId, marketId.toNat < marketCount → back.tickStore.ticks marketId =
          db.tickStore.ticks marketId ++ ticksOf marketId [lostTick]) ↔
        ∀ marketId : MarketId, marketId.toNat < marketCount →
          (db.tickStore.ticks marketId).length + (ticksOf marketId [lostTick]).length ≤ 1) := by
  obtain ⟨db, opened, r, run, acked, crash, _⟩ := lostTick_crashed
  obtain ⟨back, later, again, survive⟩ := acknowledged_ticks_survive_iff Bincode.formats
    Bincode.format_roundTrips .stored syncedConfig rfl .fresh none [] fresh_durable db opened run
    [lostTick] lostTick_fits r acked (fun _ => 1) _ crash .stored
  exact ⟨db, opened, r, _, back, later, run, acked, crash, again, survive⟩

/-- The tick is acknowledged and its log entry synced, and it is lost with the page of its file
that was never flushed. -/
theorem acknowledged_tick_lost :
    ∃ db opened r left back later,
      PerfDb.open_ Bincode.formats .stored syncedConfig .fresh = .ok db opened ∧
      ingestAll Bincode.format [lostTick] (opened.running db) = .ok () r ∧
      r.Crashed (fun _ => 0) left ∧
      PerfDb.open_ Bincode.formats .stored syncedConfig left = .ok back later ∧
      lostTick ∉ back.tickStore.ticks lostTick.marketId := by
  obtain ⟨db, opened, r, run, acked, _, crash⟩ := lostTick_crashed
  obtain ⟨back, later, again, stored⟩ := open_crashed Bincode.format_roundTrips rfl fresh_durable
    run lostTick_fits acked crash .stored
  refine ⟨db, opened, r, _, back, later, run, acked, crash, again, ?_⟩
  rw [stored, List.take_zero]
  exact List.not_mem_nil

end Perfdb
