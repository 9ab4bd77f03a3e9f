import Mathlib
import Perfdb.ConsistentSnapshots

set_option autoImplicit false

namespace Perfdb

namespace Threads

variable {events : List IndexedEvent} {schedule : List Step}

/-- The steps that a recovered store comes from: those before it was read, and those of the
events that replay does again. -/
def reflected (schedule : List Step) (read : Read) : List Step :=
  before read schedule ++ (replayed schedule .new).flatMap processSteps

def balancesOf (steps : List Step) : BalanceCache :=
  steps.foldl (fun cache step => step.onBalances cache) .new

def traderStatsOf (steps : List Step) : TraderStatsStore :=
  steps.foldl (fun store step => step.onTraderStats store) .new

/-- Whoever opens the database again finds in every balance and in every trader's stats what
these steps make of nothing. -/
def Reflects (fmts : Formats) (steps : Read → List Step) (r : Running) : Prop :=
  ∀ order config, ∃ db later, PerfDb.open_ fmts order config r.close = .ok db later ∧
    (∀ user token, db.balances.get user token = (balancesOf (steps .balances)).get user token) ∧
    ∀ address, db.traderStats.get address = (traderStatsOf (steps .traderStats)).get address

/-- Of everything that the events count each is among these steps exactly once. -/
def OnceEach (events : List IndexedEvent) (steps : Read → List Step) : Prop :=
  ∀ read, ((steps read).filter (Step.counts read)).Perm
    ((events.flatMap processSteps).filter (Step.counts read))

theorem counts_read {read : Read} {step : Step} (counts : step.counts read = true) :
    read = .balances ∨ read = .traderStats := by
  cases step with
  | call indexed made =>
      cases read <;> first | exact Or.inl rfl | exact Or.inr rfl | (cases made <;> cases counts)
  | _ => cases counts

theorem counts_touches {read : Read} {step : Step} (counts : step.counts read = true) :
    step.touches read = true := by
  cases step with
  | call indexed made => cases read <;> cases made <;> first | rfl | cases counts
  | _ => cases counts

theorem counts_processes {read : Read} {step : Step} (counts : step.counts read = true) :
    step.processes = true := by
  cases step with
  | call => rfl
  | _ => cases counts

theorem processSteps_counts_nodup (indexed : IndexedEvent) (read : Read) :
    ((processSteps indexed).filter (Step.counts read)).Nodup := by
  by_cases counting : read = .balances ∨ read = .traderStats
  · rcases counting with rfl | rfl
    · obtain ⟨_, _, phases⟩ := phases_balances indexed
      rw [phases.filter_moves fun step => counts_touches]
      exact phases.once
    · obtain ⟨_, _, phases⟩ := phases_traderStats indexed
      rw [phases.filter_moves fun step => counts_touches]
      exact phases.once
  · have none : (processSteps indexed).filter (Step.counts read) = [] :=
      List.filter_eq_nil_iff.mpr fun step _ counts => counting (counts_read counts)
    rw [none]
    exact List.nodup_nil

theorem counted_nodup (once : events.Nodup) (read : Read) :
    ((events.flatMap processSteps).filter (Step.counts read)).Nodup := by
  rw [List.filter_flatMap, List.nodup_flatMap]
  refine ⟨fun indexed _ => processSteps_counts_nodup indexed read, once.imp ?_⟩
  intro one other apart step mine its
  exact apart (processSteps_own one other step (List.mem_of_mem_filter mine)
    (List.mem_of_mem_filter its))

/-- Before a read of untorn events the covered ones have counted all they count, and the
others nothing. -/
theorem Untorn.before_counted (untorn : Untorn schedule) (interleaves : Interleaves events schedule)
    (ascending : events.Pairwise fun one other => one.blockNumber < other.blockNumber)
    (read : Read) :
    (before read schedule).filter (Step.counts read) =
      ((covered schedule .new).flatMap processSteps).filter (Step.counts read) := by
  have phases (indexed : IndexedEvent) : ∃ opening closing, Cut.Phases (Step.counts read)
      (Step.counts read) (processSteps indexed) opening closing :=
    ⟨[], (processSteps indexed).filter (Step.counts read), rfl, by simp,
      fun _ inside => (List.mem_filter.mp inside).2, fun _ => rfl,
      processSteps_counts_nodup indexed read⟩
  obtain ⟨extra, filtered, still⟩ := Cut.filter_done processSteps_own phases
    (fun indexed => decide (indexed.blockNumber ≤ readBlock schedule .new))
    (ascending_nodup (ascending.sublist (logged_front interleaves).sublist))
    (before_cut interleaves read) fun indexed member step mine _ counts =>
      untorn.made interleaves ascending rfl read indexed member step mine counts
  have none : extra = [] := by
    refine List.eq_nil_iff_forall_not_mem.mpr fun step inside => ?_
    have listed : step ∈ ((before read schedule).filter Step.processes).filter
        (Step.counts read) := filtered ▸ List.mem_append_right _ inside
    have idle := (still step inside).1
    rw [(List.mem_filter.mp listed).2] at idle
    cases idle
  rw [none, List.append_nil, List.filter_filter] at filtered
  rw [covered, ← filtered]
  refine List.filter_congr fun step _ => ?_
  cases counts : step.counts read with
  | true => rw [counts_processes counts, Bool.and_self]
  | false => rfl

theorem mem_replayed_iff (interleaves : Interleaves events schedule)
    (ascending : events.Pairwise fun one other => one.blockNumber < other.blockNumber)
    {indexed : IndexedEvent} (member : indexed ∈ logged schedule) {step : Step}
    (mine : step ∈ processSteps indexed) :
    step ∈ (replayed schedule .new).flatMap processSteps ↔ ¬ Covered schedule indexed := by
  have fresh : Stores.new.checkpoint.lastBlock = 0 := rfl
  rw [covered_iff interleaves ascending fresh member, ← readBlock, List.mem_flatMap]
  constructor
  · rintro ⟨other, again, its⟩
    obtain rfl := processSteps_own indexed other step mine its
    simpa using (List.mem_filter.mp again).2
  · intro beyond
    exact ⟨indexed, List.mem_filter.mpr ⟨member, by simpa using beyond⟩, mine⟩

/-- Nothing is counted twice or not at all exactly if no event is torn. -/
theorem onceEach_iff (interleaves : Interleaves events schedule)
    (ascending : events.Pairwise fun one other => one.blockNumber < other.blockNumber) :
    OnceEach (logged schedule) (reflected schedule) ↔ Untorn schedule := by
  have sorted := ascending.sublist (logged_front interleaves).sublist
  constructor
  · intro once indexed member call inside read counts
    have mine : Step.call indexed call ∈ processSteps indexed :=
      List.mem_cons_of_mem _ (List.mem_map_of_mem inside)
    have again := mem_replayed_iff interleaves ascending member mine
    have reached := (once read).mem_iff.mpr
      (List.mem_filter.mpr ⟨List.mem_flatMap.mpr ⟨indexed, member, mine⟩, counts⟩)
    have single := (once read).nodup_iff.mpr (counted_nodup (ascending_nodup sorted) read)
    rw [reflected, List.filter_append] at reached single
    obtain ⟨_, _, apart⟩ := List.nodup_append.mp single
    constructor
    · intro early
      by_contra beyond
      exact apart _ (List.mem_filter.mpr ⟨early, counts⟩) _
        (List.mem_filter.mpr ⟨again.mpr beyond, counts⟩) rfl
    · intro within
      rcases List.mem_append.mp reached with early | late
      · exact List.mem_of_mem_filter early
      · exact (again.mp (List.mem_of_mem_filter late) within).elim
  · intro untorn read
    rw [reflected, List.filter_append, untorn.before_counted interleaves ascending read,
      ← List.filter_append, ← List.flatMap_append, covered_replayed sorted]

/-- What the database opens to comes from what was made before the reads, and from what
replay does again. -/
theorem reflects_reads {fmts : Formats} {listing : Iteration} {o : Observed}
    (reads : ∀ read : Read,
      read.run listing (storesAfter (before read schedule) .new) o.draft = o.draft)
    (reopens : ∀ order config, ∃ db later,
      PerfDb.open_ fmts order config o.running.close = .ok db later ∧
        db.toStores = recovered (some o.draft) ((logged schedule).map .indexedEvent)) :
    Reflects fmts (reflected schedule) o.running := by
  intro order config
  obtain ⟨found, later, reopened, stores⟩ := reopens order config
  obtain ⟨balances, traderStats⟩ := recovered_reads reads
  rw [← stores] at balances traderStats
  refine ⟨found, later, reopened, fun user token => ?_, fun address => ?_⟩
  · rw [BalanceCache.get, balances, balances_after, balancesOf, reflected, List.foldl_append,
      foldl_process Step.onBalances IndexedEvent.onBalances processSteps_onBalances]
    rfl
  · rw [traderStats, traderStats_after, traderStatsOf, reflected, List.foldl_append,
      foldl_process Step.onTraderStats IndexedEvent.onTraderStats processSteps_onTraderStats]
    rfl

/-- A snapshot is taken on a new database while events of ascending blocks are processed.
What is recovered comes from the calls made before each read and from the replayed ones; each
event counts among them exactly once, and in every balance and every trader's stats as if it
had been processed alone, if and only if no event is torn. -/
theorem concurrent_snapshot_once_iff (fmts : Formats) (walInverse : fmts.wal.RoundTrips)
    (inverse : fmts.snapshot.RoundTrips) (events : List IndexedEvent)
    (fits : ∀ indexed ∈ events, fmts.wal.Fits (.indexedEvent indexed))
    (ascending : events.Pairwise fun one other => one.blockNumber < other.blockNumber)
    (order listing : Iteration) (config : PerfDbConfig) (disk opened : Disk)
    (blank : disk.Blank) (db : PerfDb) (run : PerfDb.open_ fmts order config disk = .ok db opened)
    (draft : StateSnapshot) (schedule : List Step) (interleaves : Interleaves events schedule) :
    ∃ o, runSteps fmts listing schedule ⟨opened.running db, draft⟩ = .ok () o ∧
      Reflects fmts (reflected schedule) o.running ∧
      (OnceEach (logged schedule) (reflected schedule) ∧
        CountsOnce fmts (logged schedule) o.running ↔ Untorn schedule) := by
  obtain ⟨o, returned, reads, reopens⟩ :=
    snapshot_reopens walInverse inverse fits listing blank run draft interleaves
  have once := onceEach_iff interleaves ascending
  exact ⟨o, returned, reflects_reads reads reopens, fun counted => once.mp counted.1,
    fun untorn => ⟨once.mpr untorn,
      countsOnce_of_untorn interleaves untorn ascending reads reopens⟩⟩

/-- A position closes in the block after the deposit. -/
def secondClose : IndexedEvent :=
  ⟨2, 1700000060, Vector.replicate 32 1, 0, 0,
    .positionClosed (Vector.replicate 32 9) (Vector.replicate 20 3) 0 50 2000 7 true⟩

/-- A snapshot whose reads fall between the calls for the second event. -/
def spreadSchedule : List Step :=
  processSteps firstDeposit ++ [.read .checkpoint, .walAppend secondClose] ++
    [Read.dailyStats, .marketStates, .positions].map Step.read ++
    ((calls secondClose).take 3).map (Step.call secondClose) ++
    [Read.orders, .balances, .users, .traderStats, .timestamp].map Step.read ++
    [.writeSnapshot] ++ ((calls secondClose).drop 3).map (Step.call secondClose)

theorem spreadSchedule_interleaves : Interleaves [firstDeposit, secondClose] spreadSchedule :=
  ⟨List.prefix_refl _, rfl⟩

theorem spreadSchedule_onceEach : OnceEach (logged spreadSchedule) (reflected spreadSchedule) := by
  intro read
  refine List.Perm.of_eq ?_
  cases read <;> rfl

theorem ascending_two : [firstDeposit, secondClose].Pairwise fun one other =>
    one.blockNumber < other.blockNumber := by decide

theorem concurrent_snapshot_once_iff_second :
    ∃ db opened o, PerfDb.open_ Bincode.formats .stored ⟨"data", "wal", 1024, .none⟩ .fresh =
        .ok db opened ∧
      runSteps Bincode.formats .stored spreadSchedule
        ⟨opened.running db, Stores.new.stateSnapshot .stored⟩ = .ok () o ∧
      CountsOnce Bincode.formats [firstDeposit, secondClose] o.running := by
  obtain ⟨db, opened, run, _⟩ := follows_blank Bincode.formats .stored
    ⟨"data", "wal", 1024, .none⟩ Disk.fresh_blank
  have fits : ∀ indexed ∈ [firstDeposit, secondClose],
      Bincode.formats.wal.Fits (.indexedEvent indexed) := by
    intro indexed member
    unfold Wal.Format.Fits
    rcases List.mem_pair.mp member with rfl | rfl <;> decide +kernel
  obtain ⟨o, returned, _, once⟩ := concurrent_snapshot_once_iff Bincode.formats
    Bincode.format_roundTrips Bincode.snapshotFormat_roundTrips [firstDeposit, secondClose] fits
    ascending_two .stored .stored ⟨"data", "wal", 1024, .none⟩ .fresh opened Disk.fresh_blank db
    run (Stores.new.stateSnapshot .stored) spreadSchedule spreadSchedule_interleaves
  have untorn := (onceEach_iff spreadSchedule_interleaves ascending_two).mp spreadSchedule_onceEach
  exact ⟨db, opened, o, run, returned, (once.mpr untorn).2⟩

/-- A snapshot that is taken after the deposit is booked and before the checkpoint advances. -/
def tornSchedule : List Step :=
  [.walAppend firstDeposit, .call firstDeposit .eventsAppend,
    .call firstDeposit (.usersEnsure (Vector.replicate 20 1)),
    .call firstDeposit (.deposit (Vector.replicate 20 1) (Vector.replicate 20 2) 100)] ++
  snapshotSteps ++ [.call firstDeposit .advanceBlock]

/-- Replay does the deposit again, on the balance that holds it already: 200 for 100. -/
theorem torn_deposit_counts_twice :
    ∃ db opened o, PerfDb.open_ Bincode.formats .stored ⟨"data", "wal", 1024, .none⟩ .fresh =
        .ok db opened ∧
      Interleaves [firstDeposit] tornSchedule ∧
      runSteps Bincode.formats .stored tornSchedule
        ⟨opened.running db, Stores.new.stateSnapshot .stored⟩ = .ok () o ∧
      ¬ CountsOnce Bincode.formats [firstDeposit] o.running := by
  obtain ⟨db, opened, run, _⟩ := follows_blank Bincode.formats .stored
    ⟨"data", "wal", 1024, .none⟩ Disk.fresh_blank
  have interleaves : Interleaves [firstDeposit] tornSchedule := ⟨List.prefix_refl _, rfl⟩
  have fits : ∀ indexed ∈ [firstDeposit], Bincode.formats.wal.Fits (.indexedEvent indexed) := by
    intro indexed member
    obtain rfl := List.mem_singleton.mp member
    unfold Wal.Format.Fits
    decide +kernel
  obtain ⟨o, returned, reads, reopens⟩ := snapshot_reopens Bincode.format_roundTrips
    Bincode.snapshotFormat_roundTrips fits .stored Disk.fresh_blank run
    (Stores.new.stateSnapshot .stored) interleaves
  refine ⟨db, opened, o, run, interleaves, returned, fun once => ?_⟩
  obtain ⟨found, later, opens, balances, _⟩ :=
    reflects_reads reads reopens .stored ⟨"data", "wal", 1024, .none⟩
  obtain ⟨again, _, reopened, booked, _⟩ := once .stored ⟨"data", "wal", 1024, .none⟩
  obtain ⟨rfl, rfl⟩ := EStateM.Result.ok.inj (opens.symm.trans reopened)
  have same := congrArg (Option.map Balance.amount) ((balances (Vector.replicate 20 1)
    (Vector.replicate 20 2)).symm.trans (booked _ _))
  revert same
  decide +kernel

end Threads

end Perfdb
