import Mathlib
import Perfdb.Compaction
import Perfdb.EventQueries

set_option autoImplicit false

namespace Perfdb

def loggedEvents (entries : List WalEntry) : List IndexedEvent :=
  entries.filterMap fun entry =>
    match entry with
    | .indexedEvent indexed => some indexed
    | _ => none

theorem loggedEvents_append (front back : List WalEntry) :
    loggedEvents (front ++ back) = loggedEvents front ++ loggedEvents back :=
  List.filterMap_append

theorem replayEvent_events (indexed : IndexedEvent) (stores : Stores) :
    (replayEvent indexed stores).events = stores.events.record indexed := by
  obtain ⟨blockNumber, blockTimestamp, txHash, txIndex, logIndex, event⟩ := indexed
  cases event <;> rfl

theorem restore_events (snap : StateSnapshot) (start : Stores) :
    (restoreSnapshot snap start).events = start.events := rfl

/-- The live log records every event, the one rebuilt from disk those since the latest
snapshot. -/
structure Course.Recorded (actions front : List Action) (c : Course) : Prop where
  compacts : c.Compacts actions front
  live : c.db.events.Records (loggedEvents c.log)
  again : c.reopened.events.Records (loggedEvents c.tail)

section Recorded

variable {actions front : List Action} {action : Action} {c : Course}

theorem recorded_start {db : PerfDb} (empty : db.toStores = .new)
    (positive : ∀ block ∈ actions.filterMap Action.block, 1 ≤ block) :
    Course.Recorded actions [] (Course.start db) := by
  refine ⟨compacts_start empty positive, ?_, EventStore.records_new⟩
  have fresh : db.events = .new := congrArg Stores.events empty
  change db.events.Records []
  rw [fresh]
  exact EventStore.records_new

theorem Course.Recorded.step (recorded : c.Recorded actions front) (ordered : Ordered actions)
    (boundaries : AtBoundaries actions)
    (positive : ∀ block ∈ actions.filterMap Action.block, 1 ≤ block)
    (inside : front ++ [action] <+: actions) :
    (c.step action).Recorded actions (front ++ [action]) := by
  obtain ⟨compacts, live, again⟩ := recorded
  refine ⟨compacts.step ordered boundaries positive inside, ?_, ?_⟩
  · cases action with
    | event indexed =>
        have log : (c.step (.event indexed)).log = c.log ++ [.indexedEvent indexed] :=
          (List.append_assoc _ _ _).symm
        change (c.db.applyEvent indexed).events.Records _
        rw [log, loggedEvents_append, applyEvent_events]
        exact live.record indexed
    | tick sample =>
        have log : (c.step (.tick sample)).log =
            c.log ++ [.priceTick sample.timestampNs sample.marketId sample.price] :=
          (List.append_assoc _ _ _).symm
        change c.db.events.Records _
        rw [log, loggedEvents_append]
        exact (List.append_nil (loggedEvents c.log)).symm ▸ live
    | snapshot order =>
        have log : (c.step (.snapshot order)).log = c.log := List.append_nil _
        rw [log]
        exact live
  · cases action with
    | event indexed =>
        obtain ⟨later, whole⟩ := inside
        have above : snapBlockOf c.latest < indexed.blockNumber := by
          refine compacts.ahead (.event indexed :: later) ?_ _ List.mem_cons_self
          rw [← whole, List.append_assoc, List.singleton_append]
        change (c.step (.event indexed)).reopened.events.Records (loggedEvents (c.tail ++ [_]))
        rw [reopened_event, replayWalEntry_event above, replayEvent_events, loggedEvents_append]
        exact again.record indexed
    | tick sample =>
        change (c.step (.tick sample)).reopened.events.Records (loggedEvents (c.tail ++ [_]))
        rw [reopened_tick, loggedEvents_append]
        exact (List.append_nil (loggedEvents c.tail)).symm ▸ again
    | snapshot order =>
        rw [reopened_snapshot compacts.dated]
        change (restoreSnapshot (c.db.stateSnapshot order) .new).events.Records []
        rw [restore_events]
        exact EventStore.records_new

theorem course_recorded {db : PerfDb} (empty : db.toStores = .new) (ordered : Ordered actions)
    (boundaries : AtBoundaries actions)
    (positive : ∀ block ∈ actions.filterMap Action.block, 1 ≤ block) :
    (course db actions).Recorded actions actions :=
  foldl_holds (Course.Recorded actions) (recorded_start empty positive)
    fun _ _ _ inside recorded => recorded.step ordered boundaries positive inside

end Recorded

namespace Action

def isSnapshot : Action → Bool
  | .snapshot _ => true
  | .event _ | .tick _ => false

def processed : Action → Option IndexedEvent
  | .event indexed => some indexed
  | .tick _ | .snapshot _ => none

end Action

def eventsBeforeSnapshot (actions : List Action) : List IndexedEvent :=
  (actions.rdropWhile fun action => !action.isSnapshot).filterMap Action.processed

theorem loggedEvents_entries (actions : List Action) :
    loggedEvents (actions.filterMap Action.entry) = actions.filterMap Action.processed := by
  rw [loggedEvents, List.filterMap_filterMap]
  refine List.filterMap_congr fun action _ => ?_
  cases action <;> rfl

theorem loggedEvents_head {db : PerfDb} {actions : List Action} (empty : db.toStores = .new)
    (ordered : Ordered actions) :
    loggedEvents (course db actions).head = eventsBeforeSnapshot actions := by
  induction actions using List.reverseRecOn with
  | nil => rfl
  | append_singleton front action ih =>
      have shorter := ordered.of_prefix (List.prefix_append front [action])
      have before := ih shorter
      rw [course_append_one]
      cases action with
      | event indexed =>
          refine before.trans ?_
          rw [eventsBeforeSnapshot, eventsBeforeSnapshot, List.rdropWhile_concat_pos _ _ _ rfl]
      | tick sample =>
          refine before.trans ?_
          rw [eventsBeforeSnapshot, eventsBeforeSnapshot, List.rdropWhile_concat_pos _ _ _ rfl]
      | snapshot order =>
          have log := (course_dated empty shorter).log
          change loggedEvents (course db front).log = _
          rw [log, loggedEvents_entries, eventsBeforeSnapshot,
            List.rdropWhile_concat_neg _ _ _ (by simp [Action.isSnapshot]), List.filterMap_append]
          exact (List.append_nil _).symm

structure EventStore.SameQueries (left right : EventStore) : Prop where
  byMarket : ∀ marketId fromBlock toBlock,
    left.eventsByMarket marketId fromBlock toBlock = right.eventsByMarket marketId fromBlock toBlock
  byTrader : ∀ trader fromBlock toBlock,
    left.eventsByTrader trader fromBlock toBlock = right.eventsByTrader trader fromBlock toBlock
  latestByMarket : ∀ marketId count,
    left.latestByMarket marketId count = right.latestByMarket marketId count
  latestByTrader : ∀ trader count,
    left.latestByTrader trader count = right.latestByTrader trader count
  totalCount : left.totalCount = right.totalCount

/-- Events that no query returns, and so many that the count does not show them. -/
def Unnoticed (lost : List IndexedEvent) : Prop :=
  (∀ indexed ∈ lost, indexed.event.unrouted = true) ∧ lost.length % 2 ^ 64 = 0

theorem routed_eq_nil_iff {κ : Type} [DecidableEq κ] (keyOf : IndexedEvent → Option κ)
    (lost : List IndexedEvent) :
    (∀ key, EventStore.routed keyOf key lost = []) ↔ ∀ indexed ∈ lost, keyOf indexed = none := by
  simp only [EventStore.routed, List.filter_eq_nil_iff, decide_eq_true_eq]
  constructor
  · intro absent indexed member
    rw [Option.eq_none_iff_forall_ne_some]
    exact fun key => absent key indexed member
  · intro none key indexed member same
    rw [none indexed member] at same
    contradiction

/-- A log that lacks the first events of another answers alike exactly when these go
unnoticed. -/
theorem sameQueries_iff {left right : EventStore} {lost kept : List IndexedEvent}
    (fewer : left.Records kept) (all : right.Records (lost ++ kept)) :
    left.SameQueries right ↔ Unnoticed lost := by
  have split {κ : Type} [DecidableEq κ] (keyOf : IndexedEvent → Option κ) (key : κ) :
      EventStore.routed keyOf key (lost ++ kept) =
        EventStore.routed keyOf key lost ++ EventStore.routed keyOf key kept := List.filter_append ..
  have whole {κ : Type} [DecidableEq κ] (keyOf : IndexedEvent → Option κ) (key : κ)
      (events : List IndexedEvent) :
      (EventStore.routed keyOf key events).filter (EventStore.inBlockRange none none) =
        EventStore.routed keyOf key events := List.filter_eq_self.mpr fun _ _ => rfl
  have count : left.totalCount = right.totalCount ↔ lost.length % 2 ^ 64 = 0 := by
    rw [fewer.count, all.count, ← UInt64.toNat_inj, UInt64.toNat_ofNat', UInt64.toNat_ofNat',
      List.length_append]
    omega
  have unrouted : (∀ indexed ∈ lost, indexed.event.unrouted = true) ↔
      (∀ marketId, EventStore.routed EventStore.marketOf marketId lost = []) ∧
        ∀ trader, EventStore.routed EventStore.traderOf trader lost = [] := by
    rw [routed_eq_nil_iff, routed_eq_nil_iff, ← forall₂_and]
    refine forall₂_congr fun indexed _ => ?_
    rw [unrouted_iff, Prod.ext_iff]
    rfl
  rw [Unnoticed, unrouted, ← count]
  constructor
  · rintro ⟨byMarket, byTrader, _, _, totals⟩
    refine ⟨⟨fun marketId => ?_, fun trader => ?_⟩, totals⟩
    · have same := byMarket marketId none none
      rw [EventStore.eventsByMarket, EventStore.eventsByMarket, fewer.markets.query,
        all.markets.query, whole, whole, split] at same
      exact List.self_eq_append_left.mp same
    · have same := byTrader trader none none
      rw [EventStore.eventsByTrader, EventStore.eventsByTrader, fewer.traders.query,
        all.traders.query, whole, whole, split] at same
      exact List.self_eq_append_left.mp same
  · rintro ⟨⟨markets, traders⟩, totals⟩
    refine ⟨fun marketId fromBlock toBlock => ?_, fun trader fromBlock toBlock => ?_,
      fun marketId count => ?_, fun trader count => ?_, totals⟩
    · rw [EventStore.eventsByMarket, EventStore.eventsByMarket, fewer.markets.query,
        all.markets.query, split, markets, List.nil_append]
    · rw [EventStore.eventsByTrader, EventStore.eventsByTrader, fewer.traders.query,
        all.traders.query, split, traders, List.nil_append]
    · rw [EventStore.latestByMarket, EventStore.latestByMarket, fewer.markets.latest,
        all.markets.latest, split, markets, List.nil_append]
    · rw [EventStore.latestByTrader, EventStore.latestByTrader, fewer.traders.latest,
        all.traders.latest, split, traders, List.nil_append]

/-- Whoever opens the database again gets the same answers from its event log. -/
def Running.EventLogRecovers (fmts : Formats) (r : Running) : Prop :=
  ∀ order config, ∃ db later, PerfDb.open_ fmts order config r.close = .ok db later ∧
    db.events.SameQueries r.db.events

theorem eventLogRecovers_iff {fmts : Formats} {c : Course} {r : Running}
    (follows : Follows fmts c r) (inverse : fmts.snapshot.RoundTrips) :
    r.EventLogRecovers fmts ↔ c.reopened.events.SameQueries c.db.events := by
  have live : r.db.events = c.db.events := congrArg Stores.events follows.stores
  constructor
  · intro recover
    obtain ⟨db, later, opened, same⟩ := recover .stored ⟨"", "", 0, .none⟩
    obtain ⟨db', later', again, stores⟩ := follows.reopen inverse .stored ⟨"", "", 0, .none⟩
    obtain ⟨rfl, rfl⟩ := EStateM.Result.ok.inj (opened.symm.trans again)
    rwa [live, show db.events = c.reopened.events from congrArg Stores.events stores] at same
  · intro same order config
    obtain ⟨db, later, opened, stores⟩ := follows.reopen inverse order config
    refine ⟨db, later, opened, ?_⟩
    rwa [live, show db.events = c.reopened.events from congrArg Stores.events stores]

/-- After a run with snapshots between blocks the event log recovers exactly when the
events before the latest snapshot go unnoticed. -/
theorem event_log_recovers_iff (fmts : Formats) (walInverse : fmts.wal.RoundTrips)
    (inverse : fmts.snapshot.RoundTrips) (actions : List Action)
    (valid : ∀ action ∈ actions, action.Valid fmts.wal) (ordered : Ordered actions)
    (positive : ∀ block ∈ actions.filterMap Action.block, 1 ≤ block)
    (boundaries : AtBoundaries actions) (order : Iteration) (config : PerfDbConfig)
    (disk opened : Disk) (blank : disk.Blank) (db : PerfDb)
    (run : PerfDb.open_ fmts order config disk = .ok db opened) (r : Running)
    (returned : runActions fmts actions (opened.running db) = .ok () r) :
    r.EventLogRecovers fmts ↔ Unnoticed (eventsBeforeSnapshot actions) := by
  obtain ⟨db', opened', again, empty, follows⟩ := follows_blank fmts order config blank
  obtain ⟨rfl, rfl⟩ := EStateM.Result.ok.inj (again.symm.trans run)
  obtain ⟨r', returned', reached⟩ :=
    ordered_follows walInverse valid ordered empty follows (List.prefix_refl _)
  obtain ⟨_, rfl⟩ := EStateM.Result.ok.inj (returned'.symm.trans returned)
  obtain ⟨_, live, rebuilt⟩ := course_recorded empty ordered boundaries positive
  rw [Course.log, loggedEvents_append, loggedEvents_head empty ordered] at live
  rw [eventLogRecovers_iff reached inverse]
  exact sameQueries_iff rebuilt live

/-- The event log of a deposit and a tick before a snapshot. -/
theorem event_log_recovers_iff_deposit :
    ∃ db opened r, PerfDb.open_ Bincode.formats .stored ⟨"data", "wal", 1024, .none⟩ .fresh =
        .ok db opened ∧
      runActions Bincode.formats savedDeposit (opened.running db) = .ok () r ∧
      (r.EventLogRecovers Bincode.formats ↔ Unnoticed (eventsBeforeSnapshot savedDeposit)) := by
  obtain ⟨db, opened, run, empty, follows⟩ := follows_blank Bincode.formats .stored
    ⟨"data", "wal", 1024, .none⟩ Disk.fresh_blank
  obtain ⟨r, returned, _⟩ := ordered_follows Bincode.format_roundTrips savedDeposit_valid
    savedDeposit_ordered empty follows (List.prefix_refl _)
  exact ⟨db, opened, r, run, returned, event_log_recovers_iff Bincode.formats
    Bincode.format_roundTrips Bincode.snapshotFormat_roundTrips savedDeposit savedDeposit_valid
    savedDeposit_ordered savedDeposit_positive savedDeposit_boundaries .stored
    ⟨"data", "wal", 1024, .none⟩ .fresh opened Disk.fresh_blank db run r returned⟩

/-- The deposit is in the log on disk, and in no query after a restart. -/
theorem deposit_missing_from_event_log :
    ∃ db opened r, PerfDb.open_ Bincode.formats .stored ⟨"data", "wal", 1024, .none⟩ .fresh =
        .ok db opened ∧
      runActions Bincode.formats savedDeposit (opened.running db) = .ok () r ∧
      ¬ r.EventLogRecovers Bincode.formats := by
  obtain ⟨db, opened, run, empty, follows⟩ := follows_blank Bincode.formats .stored
    ⟨"data", "wal", 1024, .none⟩ Disk.fresh_blank
  obtain ⟨r, returned, reached⟩ := ordered_follows Bincode.format_roundTrips savedDeposit_valid
    savedDeposit_ordered empty follows (List.prefix_refl _)
  obtain ⟨_, live, rebuilt⟩ := course_recorded empty savedDeposit_ordered savedDeposit_boundaries
    savedDeposit_positive
  rw [Course.log, loggedEvents_append, loggedEvents_head empty savedDeposit_ordered] at live
  refine ⟨db, opened, r, run, returned, fun recover => ?_⟩
  have same := (eventLogRecovers_iff reached Bincode.snapshotFormat_roundTrips).mp recover
  exact absurd ((sameQueries_iff rebuilt live).mp same).2 (by decide)

end Perfdb
