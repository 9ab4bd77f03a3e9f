import Mathlib
import Perfdb.Recovery

set_option autoImplicit false

/-! The checkpoint after a restart. Nothing logs what is saved in it, so it comes back from
the snapshot and from the blocks of the events that are replayed. -/

namespace Perfdb

section LastOf

variable {ι α : Type*}

/-- The last value that is seen in a list. -/
def lastOf (view : ι → Option α) (items : List ι) : Option α := (items.filterMap view).getLast?

theorem lastOf_append (view : ι → Option α) (front back : List ι) :
    lastOf view (front ++ back) = (lastOf view back).or (lastOf view front) := by
  rw [lastOf, List.filterMap_append, List.getLast?_append]
  rfl

theorem lastOf_concat (view : ι → Option α) (front : List ι) (item : ι) :
    lastOf view (front ++ [item]) = (view item).or (lastOf view front) := by
  rw [lastOf_append]
  cases seen : view item <;> simp [lastOf, seen]

end LastOf

namespace EngineCall

/-- What a call appends to the log. -/
def entry : EngineCall → Option WalEntry
  | .event indexed => some (.indexedEvent indexed)
  | .tick sample => some (.priceTick sample.timestampNs sample.marketId sample.price)
  | .checkpoint _ _ _ => none

/-- Ticks are of known markets, and the log takes what is logged. -/
def Valid (fmt : Wal.Format) (call : EngineCall) : Prop :=
  (∀ sample, call = .tick sample → sample.marketId.toNat < marketCount) ∧
    ∀ entry, call.entry = some entry → fmt.Fits entry

def block : EngineCall → Option UInt64
  | .event indexed => some indexed.blockNumber
  | .tick _ => none
  | .checkpoint block _ _ => some block

/-- The hash and the timestamp a call saves. -/
def saved : EngineCall → Option (String × UInt64)
  | .event _ | .tick _ => none
  | .checkpoint _ hash timestamp => some (hash, timestamp)

def replayedBlock (snapBlock : UInt64) : EngineCall → Option UInt64
  | .event indexed => if indexed.blockNumber ≤ snapBlock then none else some indexed.blockNumber
  | .tick _ | .checkpoint _ _ _ => none

end EngineCall

/-- The block of the checkpoint after calls on a new database. -/
def blockAfter (calls : List EngineCall) : UInt64 := (lastOf EngineCall.block calls).getD 0

/-- The hash and the timestamp of the checkpoint after calls on a new database. -/
def savedAfter (calls : List EngineCall) : String × UInt64 :=
  (lastOf EngineCall.saved calls).getD ("", 0)

def checkpointAfter (calls : List EngineCall) : CheckpointStore where
  lastBlock := blockAfter calls
  lastBlockTimestamp := (savedAfter calls).2
  lastBlockHash := (savedAfter calls).1

def runCalls (fmt : Wal.Format) : List EngineCall → EngineM Unit
  | [] => pure ()
  | call :: calls => do
      call.run fmt
      runCalls fmt calls

/-- Calls behind an earlier snapshot, if there is one, that has calls before it. -/
def runSession (fmts : Formats) (earlier : Option (List EngineCall × Iteration))
    (calls : List EngineCall) : EngineM Unit :=
  match earlier with
  | none => runCalls fmts.wal calls
  | some (before, order) => do
      runCalls fmts.wal before
      let _ ← PerfDb.snapshot fmts.snapshot order
      runCalls fmts.wal calls

/-- A running database has logged the calls and holds the checkpoint they set. -/
structure Running.Called (fmts : Formats) (latest : Option StateSnapshot)
    (calls : List EngineCall) (r : Running) : Prop where
  logged : r.Logged fmts.wal (calls.filterMap EngineCall.entry)
  checkpoint : r.db.checkpoint = checkpointAfter calls
  files : Snapshot.Latest fmts.snapshot r.snapshots.dir latest

section Called

variable {fmts : Formats} {latest : Option StateSnapshot} {before : List EngineCall}
  {call : EngineCall} {r : Running}

theorem checkpointAfter_event (indexed : IndexedEvent) :
    checkpointAfter (before ++ [.event indexed]) =
      (checkpointAfter before).advanceBlock indexed.blockNumber := by
  simp only [checkpointAfter, blockAfter, savedAfter, lastOf_concat]
  rfl

theorem checkpointAfter_tick (sample : PriceTick) :
    checkpointAfter (before ++ [.tick sample]) = checkpointAfter before := by
  simp only [checkpointAfter, blockAfter, savedAfter, lastOf_concat]
  rfl

theorem Running.Called.step (called : r.Called fmts latest before)
    (inverse : fmts.wal.RoundTrips) (valid : call.Valid fmts.wal) :
    ∃ t, call.run fmts.wal r = .ok () t ∧ t.Called fmts latest (before ++ [call]) := by
  obtain ⟨logged, checkpoint, files⟩ := called
  cases call with
  | event indexed =>
      obtain ⟨s, appended, keep⟩ := logged.logs (inverse.sound (valid.2 _ rfl))
      obtain ⟨t, run, log, snapshots, _, applied⟩ := PerfDb.processEvent_of_log appended
      refine ⟨t, run, ?_, ?_, snapshots ▸ files⟩
      · rw [List.filterMap_append]
        exact keep t log snapshots
      · rw [applied, (applyEvent_effects indexed r.db).checkpoint, checkpoint,
          checkpointAfter_event]
  | tick sample =>
      obtain ⟨s, appended, keep⟩ := logged.logs (inverse.sound (valid.2 _ rfl))
      obtain ⟨t, run, log, snapshots, ticked⟩ :=
        PerfDb.ingestTick_of_log appended (valid.1 _ rfl)
      refine ⟨t, (bind_of_ok run).trans rfl, ?_, ?_, snapshots ▸ files⟩
      · rw [List.filterMap_append]
        exact keep t log snapshots
      · rw [ticked.stores, checkpointAfter_tick]
        exact checkpoint
  | checkpoint block hash timestamp =>
      refine ⟨r.mapDb (PerfDb.saveCheckpoint block hash timestamp), rfl, ?_, ?_, files⟩
      · have log : (before ++ [EngineCall.checkpoint block hash timestamp]).filterMap
            EngineCall.entry = before.filterMap EngineCall.entry := by
          rw [List.filterMap_append]
          exact List.append_nil _
        rw [log]
        exact ⟨logged.holds, logged.log, logged.snapshots⟩
      · simp only [checkpointAfter, blockAfter, savedAfter, lastOf_concat]
        rfl

theorem Running.Called.run (called : r.Called fmts latest before) (inverse : fmts.wal.RoundTrips)
    {calls : List EngineCall} (valid : ∀ call ∈ calls, call.Valid fmts.wal) :
    ∃ t, runCalls fmts.wal calls r = .ok () t ∧ t.Called fmts latest (before ++ calls) := by
  induction calls generalizing before r with
  | nil => exact ⟨r, rfl, (List.append_nil before).symm ▸ called⟩
  | cons call calls ih =>
      obtain ⟨t, first, next⟩ := called.step inverse (valid call List.mem_cons_self)
      obtain ⟨u, rest, last⟩ :=
        ih next fun other member => valid other (List.mem_cons_of_mem call member)
      refine ⟨u, (bind_of_ok first).trans rest, ?_⟩
      rwa [List.append_assoc, List.singleton_append] at last

theorem Running.Called.snapshot (called : r.Called fmts none before) (order : Iteration) :
    ∃ path t, PerfDb.snapshot fmts.snapshot order r = .ok path t ∧
      t.Called fmts (some (r.db.stateSnapshot order)) before := by
  obtain ⟨logged, checkpoint, files⟩ := called
  obtain ⟨path, world, written, calm⟩ :=
    PerfDb.snapshot_returns (r := r) fmts.snapshot order logged.snapshots
  have dir := PerfDb.snapshot_dir written
  refine ⟨path, _, written, ⟨logged.holds, logged.log, calm⟩, checkpoint, ?_⟩
  rw [dir]
  exact files.write (r.db.stateSnapshot order) fun old some => by contradiction

theorem replayWalEntry_checkpoint (snapBlock : UInt64) (stores : Stores) (indexed : IndexedEvent) :
    (replayWalEntry snapBlock (.indexedEvent indexed) stores).checkpoint =
      if indexed.blockNumber ≤ snapBlock then stores.checkpoint
      else stores.checkpoint.advanceBlock indexed.blockNumber := by
  rw [replayWalEntry]
  split
  · rfl
  · exact (replayEvent_effects indexed stores).checkpoint

/-- Replay sets the block of the last event that it does not pass over. -/
theorem replayEntries_checkpoint (snapBlock : UInt64) (calls : List EngineCall)
    (stores : Stores) :
    (replayEntries snapBlock (calls.filterMap EngineCall.entry) stores).checkpoint =
      stores.checkpoint.advanceBlock
        ((lastOf (EngineCall.replayedBlock snapBlock) calls).getD stores.checkpoint.lastBlock) := by
  induction calls using List.reverseRecOn with
  | nil => rfl
  | append_singleton front call ih =>
      rw [List.filterMap_append, replayEntries_append, lastOf_concat]
      generalize replayEntries snapBlock (front.filterMap EngineCall.entry) stores = middle at ih ⊢
      cases call with
      | event indexed =>
          refine (replayWalEntry_checkpoint snapBlock middle indexed).trans ?_
          rw [EngineCall.replayedBlock, ih]
          split <;> rfl
      | tick sample => exact ih
      | checkpoint block hash timestamp => exact ih

end Called

/-- A snapshot with the checkpoint that the calls before it have set. -/
structure Earlier (latest : Option StateSnapshot) (before : List EngineCall) : Prop where
  snapBlock : snapBlockOf latest = blockAfter before
  checkpoint : (restored latest).checkpoint = checkpointAfter before

theorem earlier_none : Earlier none [] := ⟨rfl, rfl⟩

theorem earlier_some {before : List EngineCall} {stores : Stores} (order : Iteration)
    (same : stores.checkpoint = checkpointAfter before) :
    Earlier (some (stores.stateSnapshot order)) before := by
  refine ⟨?_, (restore_checkpoint order stores).trans same⟩
  change stores.checkpoint.lastBlock = _
  rw [same]
  rfl

/-- What a restart makes of the calls before a snapshot and the calls since. -/
def checkpointReopened (before calls : List EngineCall) : CheckpointStore :=
  (checkpointAfter before).advanceBlock
    ((lastOf (EngineCall.replayedBlock (blockAfter before)) (before ++ calls)).getD
      (blockAfter before))

theorem Earlier.recovered {latest : Option StateSnapshot} {before : List EngineCall}
    (earlier : Earlier latest before) (calls : List EngineCall) :
    (recovered latest ((before ++ calls).filterMap EngineCall.entry)).checkpoint =
      checkpointReopened before calls := by
  rw [Perfdb.recovered, replayEntries_checkpoint, earlier.snapBlock, earlier.checkpoint]
  rfl

def earlierCalls (earlier : Option (List EngineCall × Iteration)) : List EngineCall :=
  (earlier.map Prod.fst).getD []

theorem runSession_returns {fmts : Formats} (inverse : fmts.wal.RoundTrips)
    (earlier : Option (List EngineCall × Iteration)) {calls : List EngineCall}
    (valid : ∀ call ∈ earlierCalls earlier ++ calls, call.Valid fmts.wal) {r : Running}
    (called : r.Called fmts none []) :
    ∃ t latest, runSession fmts earlier calls r = .ok () t ∧
      t.Called fmts latest (earlierCalls earlier ++ calls) ∧
      Earlier latest (earlierCalls earlier) := by
  cases earlier with
  | none =>
      obtain ⟨t, run, last⟩ := called.run inverse valid
      exact ⟨t, none, run, last, earlier_none⟩
  | some pair =>
      obtain ⟨before, order⟩ := pair
      obtain ⟨s, first, reached⟩ := called.run inverse fun call member =>
        valid call (List.mem_append_left calls member)
      obtain ⟨path, u, written, kept⟩ := reached.snapshot order
      obtain ⟨t, rest, last⟩ := kept.run inverse fun call member =>
        valid call (List.mem_append_right before member)
      refine ⟨t, some (s.db.stateSnapshot order), ?_, last, earlier_some order reached.checkpoint⟩
      exact (bind_of_ok first).trans ((bind_of_ok written).trans rest)

/-- What is set since a snapshot, or since the start, comes back with the snapshot and the
events: the last hash and timestamp are those of the snapshot, and the last block is the one
of the last event of a later block than the snapshot's. -/
structure CheckpointRestated (before calls : List EngineCall) : Prop where
  saved : ∀ values, lastOf EngineCall.saved calls = some values → values = savedAfter before
  block : blockAfter (before ++ calls) =
    (lastOf (EngineCall.replayedBlock (blockAfter before)) (before ++ calls)).getD
      (blockAfter before)

instance (before calls : List EngineCall) : Decidable (CheckpointRestated before calls) :=
  decidable_of_iff
    ((∀ values ∈ lastOf EngineCall.saved calls, values = savedAfter before) ∧
      blockAfter (before ++ calls) =
        (lastOf (EngineCall.replayedBlock (blockAfter before)) (before ++ calls)).getD
          (blockAfter before))
    ⟨fun ⟨saved, block⟩ => ⟨saved, block⟩, fun ⟨saved, block⟩ => ⟨saved, block⟩⟩

theorem checkpointReopened_iff (before calls : List EngineCall) :
    (checkpointReopened before calls).snapshot = (checkpointAfter (before ++ calls)).snapshot ↔
      CheckpointRestated before calls := by
  have whole : savedAfter (before ++ calls) =
      (lastOf EngineCall.saved calls).getD (savedAfter before) := by
    rw [savedAfter, lastOf_append]
    cases lastOf EngineCall.saved calls <;> rfl
  have values : (checkpointReopened before calls).snapshot =
        (checkpointAfter (before ++ calls)).snapshot ↔
      (lastOf (EngineCall.replayedBlock (blockAfter before)) (before ++ calls)).getD
          (blockAfter before) = blockAfter (before ++ calls) ∧
        savedAfter before = savedAfter (before ++ calls) := by
    rw [Prod.ext_iff]
    change Checkpoint.mk _ _ _ = Checkpoint.mk _ _ _ ↔ _
    rw [Checkpoint.mk.injEq]
    rfl
  rw [values, whole]
  constructor
  · rintro ⟨block, saved⟩
    refine ⟨fun values last => ?_, block.symm⟩
    rw [last] at saved
    exact saved.symm
  · rintro ⟨saved, block⟩
    refine ⟨block.symm, ?_⟩
    cases last : lastOf EngineCall.saved calls with
    | none => rfl
    | some values => exact (saved values last).symm

/-- Whoever opens the database again gets its checkpoint. -/
def Running.CheckpointRecovers (fmts : Formats) (r : Running) : Prop :=
  ∀ order config, ∃ db later, PerfDb.open_ fmts order config r.close = .ok db later ∧
    db.checkpoint.snapshot = r.db.checkpoint.snapshot

theorem checkpointRecovers_iff {fmts : Formats} (inverse : fmts.snapshot.RoundTrips)
    {latest : Option StateSnapshot} {before calls : List EngineCall} {r : Running}
    (called : r.Called fmts latest (before ++ calls)) (earlier : Earlier latest before) :
    r.CheckpointRecovers fmts ↔ CheckpointRestated before calls := by
  have opens (order : Iteration) (config : PerfDbConfig) :
      ∃ db later, PerfDb.open_ fmts order config r.close = .ok db later ∧
        db.checkpoint = checkpointReopened before calls := by
    obtain ⟨db, later, opened, stores, _⟩ := PerfDb.open_returns order config
      (called.logged.close called.files) fun snap _ => inverse snap
    exact ⟨db, later, opened, (congrArg Stores.checkpoint stores).trans (earlier.recovered calls)⟩
  rw [← checkpointReopened_iff, ← called.checkpoint]
  constructor
  · intro recovers
    obtain ⟨db, later, opened, same⟩ := recovers .stored ⟨"", "", 0, .none⟩
    obtain ⟨db', later', again, checkpoint⟩ := opens .stored ⟨"", "", 0, .none⟩
    obtain ⟨rfl, rfl⟩ := EStateM.Result.ok.inj (opened.symm.trans again)
    rwa [checkpoint] at same
  · intro same order config
    obtain ⟨db, later, opened, checkpoint⟩ := opens order config
    exact ⟨db, later, opened, checkpoint ▸ same⟩

theorem called_blank (fmts : Formats) (order : Iteration) (config : PerfDbConfig) {disk : Disk}
    (blank : disk.Blank) :
    ∃ db opened, PerfDb.open_ fmts order config disk = .ok db opened ∧
      (opened.running db).Called fmts none [] := by
  obtain ⟨db, opened, run, empty, follows⟩ := follows_blank fmts order config blank
  exact ⟨db, opened, run, follows.logged, congrArg Stores.checkpoint empty, follows.files⟩

/-- The checkpoint comes back from a restart exactly when what was saved in it since the
snapshot is what the snapshot and the events restate. -/
theorem checkpoint_recovers_iff (fmts : Formats) (walInverse : fmts.wal.RoundTrips)
    (inverse : fmts.snapshot.RoundTrips) (earlier : Option (List EngineCall × Iteration))
    (calls : List EngineCall)
    (valid : ∀ call ∈ earlierCalls earlier ++ calls, call.Valid fmts.wal) (order : Iteration)
    (config : PerfDbConfig) (disk opened : Disk) (blank : disk.Blank) (db : PerfDb)
    (run : PerfDb.open_ fmts order config disk = .ok db opened) (r : Running)
    (returned : runSession fmts earlier calls (opened.running db) = .ok () r) :
    r.CheckpointRecovers fmts ↔ CheckpointRestated (earlierCalls earlier) calls := by
  obtain ⟨db', opened', again, called⟩ := called_blank fmts order config blank
  obtain ⟨rfl, rfl⟩ := EStateM.Result.ok.inj (again.symm.trans run)
  obtain ⟨r', latest, returned', last, snapshot⟩ :=
    runSession_returns walInverse earlier valid called
  obtain ⟨_, rfl⟩ := EStateM.Result.ok.inj (returned'.symm.trans returned)
  exact checkpointRecovers_iff inverse last snapshot

def savedCheckpoint : List EngineCall := [.checkpoint 5 "0x05" 1700000000]

theorem savedCheckpoint_valid (fmt : Wal.Format) : ∀ call ∈ savedCheckpoint, call.Valid fmt := by
  rintro call member
  rw [List.mem_singleton.mp member]
  exact ⟨fun sample same => by contradiction, fun entry same => by contradiction⟩

/-- A checkpoint that is saved, taken into a snapshot and saved again. -/
theorem checkpoint_recovers_iff_saved :
    ∃ db opened r, PerfDb.open_ Bincode.formats .stored ⟨"data", "wal", 1024, .none⟩ .fresh =
        .ok db opened ∧
      runSession Bincode.formats (some (savedCheckpoint, .stored)) savedCheckpoint
        (opened.running db) = .ok () r ∧
      (r.CheckpointRecovers Bincode.formats ↔
        CheckpointRestated savedCheckpoint savedCheckpoint) := by
  obtain ⟨db, opened, run, called⟩ := called_blank Bincode.formats .stored
    ⟨"data", "wal", 1024, .none⟩ Disk.fresh_blank
  have valid : ∀ call ∈ savedCheckpoint ++ savedCheckpoint, call.Valid Bincode.formats.wal :=
    fun call member => savedCheckpoint_valid _ call ((List.mem_append.mp member).elim id id)
  obtain ⟨r, _, returned, _⟩ := runSession_returns Bincode.format_roundTrips
    (some (savedCheckpoint, .stored)) valid called
  exact ⟨db, opened, r, run, returned, checkpoint_recovers_iff Bincode.formats
    Bincode.format_roundTrips Bincode.snapshotFormat_roundTrips (some (savedCheckpoint, .stored))
    savedCheckpoint valid .stored ⟨"data", "wal", 1024, .none⟩ .fresh opened Disk.fresh_blank db
    run r returned⟩

/-- A checkpoint that was saved is gone after a restart. -/
theorem checkpoint_lost :
    ∃ db opened r, PerfDb.open_ Bincode.formats .stored ⟨"data", "wal", 1024, .none⟩ .fresh =
        .ok db opened ∧
      runSession Bincode.formats none savedCheckpoint (opened.running db) = .ok () r ∧
      ¬ r.CheckpointRecovers Bincode.formats := by
  obtain ⟨db, opened, run, called⟩ := called_blank Bincode.formats .stored
    ⟨"data", "wal", 1024, .none⟩ Disk.fresh_blank
  obtain ⟨r, _, returned, last, snapshot⟩ := runSession_returns Bincode.format_roundTrips none
    (savedCheckpoint_valid _) called
  refine ⟨db, opened, r, run, returned, ?_⟩
  rw [checkpointRecovers_iff Bincode.snapshotFormat_roundTrips last snapshot]
  decide

end Perfdb
