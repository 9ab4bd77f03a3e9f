import Mathlib
import Perfdb.AtomicSteps
import Perfdb.Cuts
import Perfdb.RecoveryAccounts

set_option autoImplicit false

namespace Perfdb

namespace Threads

/-- The event that a step has in the log. -/
def Step.begins : Step → Option IndexedEvent
  | .walAppend indexed => some indexed
  | .call _ _ | .read _ | .writeSnapshot => none

def Step.advances : Step → Option IndexedEvent
  | .call indexed .advanceBlock => some indexed
  | _ => none

def Step.isRead (read : Read) : Step → Bool
  | .read other => decide (other = read)
  | _ => false

/-- The events of a schedule that are in the log. -/
def logged (schedule : List Step) : List IndexedEvent := schedule.filterMap Step.begins

/-- The steps before a read. -/
def before (read : Read) (schedule : List Step) : List Step :=
  schedule.takeWhile fun step => !step.isRead read

/-- A schedule of one snapshot and of events one after another, the last of them possibly
not yet processed to its end. -/
structure Interleaves (events : List IndexedEvent) (schedule : List Step) : Prop where
  events : schedule.filter Step.processes <+: events.flatMap processSteps
  snapshot : schedule.filter (fun step => !step.processes) = snapshotSteps

def Call.touches : Read → Call → Bool
  | .balances, .deposit _ _ _ | .balances, .withdraw _ _ _ => true
  | .traderStats, .traderStatsEnsure _ | .traderStats, .incrementOpenPositions _
  | .traderStats, .decrementOpenPositions _ | .traderStats, .incrementTrade _ _ _ _ _ _ => true
  | _, _ => false

/-- Those that count something, so that to make them again is to count it twice. -/
def Call.counts : Read → Call → Bool
  | .balances, .deposit _ _ _ | .balances, .withdraw _ _ _ => true
  | .traderStats, .incrementOpenPositions _ | .traderStats, .decrementOpenPositions _
  | .traderStats, .incrementTrade _ _ _ _ _ _ => true
  | _, _ => false

/-- Replay will take the event to be in the snapshot: the checkpoint had advanced to it when
it was read, or it is of block 0. -/
def Covered (schedule : List Step) (indexed : IndexedEvent) : Prop :=
  Step.call indexed .advanceBlock ∈ before .checkpoint schedule ∨ indexed.blockNumber = 0

/-- What an event counts is in the snapshot if replay takes it to be, and is not if replay
will do it again. -/
def Untorn (schedule : List Step) : Prop :=
  ∀ indexed ∈ logged schedule, ∀ call ∈ calls indexed, ∀ read, call.counts read = true →
    (Step.call indexed call ∈ before read schedule ↔ Covered schedule indexed)

section Steps

def Step.update : Step → Stores → Stores
  | .call indexed made, stores => made.update indexed stores
  | _, stores => stores

def storesAfter (schedule : List Step) (stores : Stores) : Stores :=
  schedule.foldl (fun stores step => step.update stores) stores

theorem storesAfter_append (front back : List Step) (stores : Stores) :
    storesAfter (front ++ back) stores = storesAfter back (storesAfter front stores) :=
  List.foldl_append

theorem storesAfter_filter (schedule : List Step) (stores : Stores) :
    storesAfter (schedule.filter Step.processes) stores = storesAfter schedule stores := by
  rw [storesAfter, storesAfter, List.foldl_filter]
  congr 1
  funext stores step
  cases step <;> rfl

theorem processSteps_starts : Cut.Starts processSteps Step.begins where
  first indexed := ⟨_, _, rfl, rfl⟩
  others indexed := by
    simp [processSteps, List.filterMap_map, Function.comp_def, Step.begins]

theorem processSteps_advances (indexed : IndexedEvent) :
    (processSteps indexed).filterMap Step.advances = [indexed] := by
  obtain ⟨blockNumber, blockTimestamp, txHash, txIndex, logIndex, event⟩ := indexed
  cases event with
  | positionClosed positionId user marketId closedSizeUsd exitPrice realizedPnl isFullClose =>
      cases isFullClose <;> rfl
  | _ => rfl

theorem processSteps_own (one other : IndexedEvent) (step : Step)
    (mine : step ∈ processSteps one) (its : step ∈ processSteps other) : one = other := by
  cases step with
  | walAppend indexed => simp_all [processSteps]
  | call indexed made => simp_all [processSteps]
  | read | writeSnapshot => simp [processSteps] at mine

theorem logged_filter (schedule : List Step) :
    logged (schedule.filter Step.processes) = logged schedule := by
  rw [logged, logged, List.filterMap_filter]
  congr 1
  funext step
  cases step <;> rfl

end Steps

section Reads

variable {read : Read} {front : List Step}

theorem before_append (inside : Step.read read ∈ front) (more : List Step) :
    before read (front ++ more) = before read front := by
  induction front with
  | nil => cases inside
  | cons step front ih =>
      rw [before, before, List.cons_append, List.takeWhile_cons, List.takeWhile_cons]
      cases here : step.isRead read with
      | true => rfl
      | false =>
          have rest : Step.read read ∈ front := by
            rcases List.mem_cons.mp inside with rfl | rest
            · simp [Step.isRead] at here
            · exact rest
          exact congrArg (step :: ·) (ih rest)

theorem before_read (fresh : Step.read read ∉ front) (more : List Step) :
    before read (front ++ .read read :: more) = front := by
  have passes : ∀ step ∈ front, (!step.isRead read) = true := by
    intro step member
    cases step with
    | read other =>
        have apart : other ≠ read := fun same => fresh (same ▸ member)
        simp [Step.isRead, apart]
    | _ => rfl
  rw [before, List.takeWhile_append_of_pos passes]
  simp [Step.isRead]

theorem Read.run_run (order : Iteration) (stores : Stores) (read : Read) (draft : StateSnapshot) :
    read.run order stores (read.run order stores draft) = read.run order stores draft := by
  cases read <;> rfl

theorem Read.run_comm (order : Iteration) (stores later : Stores) {read other : Read}
    (apart : read ≠ other) (draft : StateSnapshot) :
    read.run order stores (other.run order later draft) =
      other.run order later (read.run order stores draft) := by
  cases read <;> cases other <;> first | rfl | exact (apart rfl).elim

theorem snapshotSteps_nodup : snapshotSteps.Nodup := by
  simp [snapshotSteps, Read.all]

/-- The next step of a snapshot has not been made, and the file is written last. -/
theorem snapshot_next {step : Step} (ours : step.processes = false)
    (inside : (front ++ [step]).filter (fun step => !step.processes) <+: snapshotSteps) :
    step ∉ front ∧ Step.writeSnapshot ∉ front := by
  have kept : (front ++ [step]).filter (fun step => !step.processes) =
      front.filter (fun step => !step.processes) ++ [step] := by
    rw [List.filter_append]
    simp [ours]
  rw [kept] at inside
  have once := snapshotSteps_nodup.sublist inside.sublist
  have early : front.filter (fun step => !step.processes) <+: Read.all.map Step.read := by
    rcases List.prefix_concat_iff.mp inside with whole | within
    · rw [(List.append_inj' whole rfl).1]
    · exact (List.prefix_append _ _).trans within
  constructor
  · intro made
    have twice : step ∈ front.filter (fun step => !step.processes) :=
      List.mem_filter.mpr ⟨made, by simp [ours]⟩
    exact (List.nodup_append.mp once).2.2 _ twice _ (List.mem_singleton_self _) rfl
  · intro made
    have kept : Step.writeSnapshot ∈ front.filter (fun step => !step.processes) :=
      List.mem_filter.mpr ⟨made, rfl⟩
    have written := early.subset kept
    simp at written

end Reads

/-- What a schedule leaves: the log, the stores, what the reads saw, and the file of the
snapshot once it is written. -/
structure Tracks (fmts : Formats) (order : Iteration) (start : Stores) (front : List Step)
    (o : Observed) : Prop where
  stores : o.running.db.toStores = storesAfter front start
  log : o.running.Logged fmts.wal ((logged front).map .indexedEvent)
  reads : ∀ read, Step.read read ∈ front →
    read.run order (storesAfter (before read front) start) o.draft = o.draft
  unwritten : Step.writeSnapshot ∉ front →
    Snapshot.Latest fmts.snapshot o.running.snapshots.dir none
  written : Step.writeSnapshot ∈ front →
    Snapshot.Latest fmts.snapshot o.running.snapshots.dir (some o.draft)

section Runs

variable {fmts : Formats} {order : Iteration} {start : Stores} {front : List Step} {last : Step}
  {o : Observed}

/-- Without I/O errors the file of a snapshot is written. -/
theorem writeSnapshot_returns (fmt : Snapshot.Format) (path : String) (snap : StateSnapshot)
    {world : World} (healthy : world.Healthy) :
    ∃ named later, Snapshot.writeSnapshot fmt path snap world = .ok named later ∧ later.Healthy ∧
      later.dir = world.dir.insert (Snapshot.snapshotName snap.checkpoint.lastBlock.toNat)
        ⟨[], fmt.serialize snap⟩ := by
  let name := Snapshot.snapshotName snap.checkpoint.lastBlock.toNat
  obtain ⟨later, written, calm⟩ := writeFile_ok
    (PerfDbError.io ("write snapshot: " ++ (path ++ "/" ++ name))) name (fmt.serialize snap) world
    healthy
  exact ⟨path ++ "/" ++ name, later, bind_of_ok written, calm, writeFile_dir written⟩

/-- A step of the thread that processes events leaves what was read and written. -/
theorem Tracks.processed (tracks : Tracks fmts order start front o) (processes : last.processes)
    {next : Observed} (draft : next.draft = o.draft)
    (files : next.running.snapshots = o.running.snapshots)
    (stores : next.running.db.toStores = storesAfter (front ++ [last]) start)
    (log : next.running.Logged fmts.wal ((logged (front ++ [last])).map .indexedEvent)) :
    Tracks fmts order start (front ++ [last]) next := by
  have same {other : Step} (reader : other.processes = false) :
      other ∈ front ++ [last] ↔ other ∈ front := by
    rw [List.mem_append, List.mem_singleton]
    refine or_iff_left fun is => ?_
    rw [is, processes] at reader
    cases reader
  refine ⟨stores, log, fun read inside => ?_, fun fresh => ?_, fun inside => ?_⟩
  · have early := (same rfl).mp inside
    rw [before_append early, draft]
    exact tracks.reads read early
  · rw [files]
    exact tracks.unwritten fun early => fresh ((same rfl).mpr early)
  · rw [files, draft]
    exact tracks.written ((same rfl).mp inside)

theorem Tracks.step (tracks : Tracks fmts order start front o) (inverse : fmts.wal.RoundTrips)
    (fits : ∀ indexed, last = .walAppend indexed → fmts.wal.Fits (.indexedEvent indexed))
    (inside : (front ++ [last]).filter (fun step => !step.processes) <+: snapshotSteps) :
    ∃ next, last.run fmts order o = .ok () next ∧
      Tracks fmts order start (front ++ [last]) next := by
  have grown : storesAfter (front ++ [last]) start =
      last.update o.running.db.toStores := by
    rw [storesAfter_append, tracks.stores]
    rfl
  cases last with
  | walAppend indexed =>
      obtain ⟨s, appended, keep⟩ := tracks.log.logs (inverse.sound (fits indexed rfl))
      refine ⟨{ o with running := o.running.setWalState s }, ?_, ?_⟩
      · simp only [Step.run, onRunning, onWal_of_ok appended]
      · refine tracks.processed rfl rfl rfl grown.symm ?_
        have more := keep (o.running.setWalState s) rfl rfl
        simpa [logged, Step.begins] using more
  | call indexed made =>
      refine ⟨_, rfl, tracks.processed rfl rfl rfl grown.symm ?_⟩
      have same : logged (front ++ [.call indexed made]) = logged front := by
        simp [logged, Step.begins]
      rw [same]
      exact ⟨tracks.log.holds, tracks.log.log, tracks.log.snapshots⟩
  | read wanted =>
      obtain ⟨fresh, unwritten⟩ := snapshot_next rfl inside
      have same : logged (front ++ [.read wanted]) = logged front := by
        simp [logged, Step.begins]
      refine ⟨{ o with draft := wanted.run order o.running.db.toStores o.draft }, rfl, grown.symm,
        same ▸ tracks.log, fun read member => ?_, fun _ => tracks.unwritten unwritten,
        fun member => ?_⟩
      · by_cases is : read = wanted
        · subst is
          rw [before_read fresh, ← tracks.stores]
          exact Read.run_run order _ read _
        · have early : Step.read read ∈ front := by simpa [is] using member
          rw [before_append early, Read.run_comm order _ _ is, tracks.reads read early]
      · simp [unwritten] at member
  | writeSnapshot =>
      obtain ⟨fresh, _⟩ := snapshot_next rfl inside
      have same : logged (front ++ [.writeSnapshot]) = logged front := by
        simp [logged, Step.begins]
      obtain ⟨path, world, wrote, healthy, dir⟩ := writeSnapshot_returns fmts.snapshot
        o.running.db.config.snapshotsDir o.draft tracks.log.snapshots
      have saved : onRunning (onSnapshots (Snapshot.writeSnapshot fmts.snapshot
          o.running.db.config.snapshotsDir o.draft)) o =
            .ok path { o with running := { o.running with snapshots := world } } := by
        simp only [onRunning, onSnapshots, wrote]
      refine ⟨{ o with running := { o.running with snapshots := world } },
        (bind_of_ok saved).trans rfl, grown.symm,
        same ▸ ⟨tracks.log.holds, tracks.log.log, healthy⟩, fun read member => ?_,
        fun unmade => (unmade (List.mem_append_right _ (List.mem_singleton_self _))).elim,
        fun _ => ?_⟩
      · have early : Step.read read ∈ front := by simpa using member
        rw [before_append early]
        exact tracks.reads read early
      · rw [dir]
        exact (tracks.unwritten fresh).write o.draft fun old none => by contradiction

theorem runSteps_tracks (inverse : fmts.wal.RoundTrips) (rest : List Step)
    (tracks : Tracks fmts order start front o)
    (fits : ∀ indexed ∈ logged rest, fmts.wal.Fits (.indexedEvent indexed))
    (inside : (front ++ rest).filter (fun step => !step.processes) <+: snapshotSteps) :
    ∃ last, runSteps fmts order rest o = .ok () last ∧
      Tracks fmts order start (front ++ rest) last := by
  induction rest generalizing front o with
  | nil =>
      rw [List.append_nil]
      exact ⟨o, rfl, tracks⟩
  | cons step rest ih =>
      rw [← List.singleton_append, ← List.append_assoc] at inside ⊢
      obtain ⟨next, made, tracked⟩ := tracks.step inverse
        (fun indexed (is : step = .walAppend indexed) => fits indexed (by
          rw [is]
          exact List.mem_cons_self))
        (((List.prefix_append _ rest).filter _).trans inside)
      obtain ⟨last, returned, tracked⟩ := ih tracked
        (fun indexed member => fits indexed (by
          rw [logged, ← List.singleton_append, List.filterMap_append]
          exact List.mem_append_right _ member)) inside
      exact ⟨last, (bind_of_ok made).trans returned, tracked⟩

end Runs

end Threads

end Perfdb
