import Mathlib
import Perfdb.EventEffects

set_option autoImplicit false

namespace Perfdb

namespace EventStore

/-- The events of a history that are routed to a key. -/
def routed {κ : Type} [DecidableEq κ] (keyOf : IndexedEvent → Option κ) (key : κ)
    (events : List IndexedEvent) : List IndexedEvent :=
  events.filter fun indexed => keyOf indexed = some key

theorem routed_append_one {κ : Type} [DecidableEq κ] (keyOf : IndexedEvent → Option κ) (key : κ)
    (events : List IndexedEvent) (indexed : IndexedEvent) :
    routed keyOf key (events ++ [indexed]) =
      routed keyOf key events ++ if keyOf indexed = some key then [indexed] else [] := by
  rw [routed, List.filter_append, List.filter_singleton, ← routed]
  by_cases own : keyOf indexed = some key
  · simp [own]
  · simp [own]

section Partition

variable {κ : Type} [Ord κ] [Std.TransOrd κ] [Std.LawfulEqOrd κ] [DecidableEq κ]
  {keyOf : IndexedEvent → Option κ} {partitions : Table κ (List IndexedEvent)}
  {events : List IndexedEvent}

/-- Each partition holds the events of the history with its key. -/
def Partitioned (keyOf : IndexedEvent → Option κ) (partitions : Table κ (List IndexedEvent))
    (events : List IndexedEvent) : Prop :=
  ∀ key, partitions[key]?.getD [] = routed keyOf key events

omit [Std.LawfulEqOrd κ] in
theorem partitioned_empty : Partitioned keyOf (∅ : Table κ (List IndexedEvent)) [] := by
  intro key
  rw [Std.ExtTreeMap.getElem?_empty]
  rfl

theorem Partitioned.push (partitioned : Partitioned keyOf partitions events)
    (indexed : IndexedEvent) :
    Partitioned keyOf (EventStore.push partitions (keyOf indexed) indexed) (events ++ [indexed]) := by
  intro key
  rw [routed_append_one, ← partitioned key]
  cases own : keyOf indexed with
  | none => simp [EventStore.push]
  | some home =>
      rw [EventStore.push, Table.getElem?_alter]
      by_cases here : home = key
      · subst here
        simp
      · simp [here]

omit [Std.LawfulEqOrd κ] in
/-- A query returns the events of its key within its bounds. -/
theorem Partitioned.query (partitioned : Partitioned keyOf partitions events) (key : κ)
    (fromBlock toBlock : Option UInt64) :
    EventStore.query partitions key fromBlock toBlock =
      (routed keyOf key events).filter (inBlockRange fromBlock toBlock) := by
  rw [← partitioned key, EventStore.query]
  cases partitions[key]? <;> rfl

omit [Std.LawfulEqOrd κ] in
theorem Partitioned.latest (partitioned : Partitioned keyOf partitions events) (key : κ)
    (count : Nat) :
    EventStore.latest partitions key count = ((routed keyOf key events).rtake count).reverse := by
  rw [← partitioned key, EventStore.latest]
  cases partitions[key]? with
  | none => rw [Option.getD_none, List.rtake_nil, List.reverse_nil]
  | some found => rfl

end Partition

def marketOf (indexed : IndexedEvent) : Option MarketId := (extractEventKeys indexed.event).1

def traderOf (indexed : IndexedEvent) : Option Address := (extractEventKeys indexed.event).2

/-- The log of a history. -/
structure Records (store : EventStore) (events : List IndexedEvent) : Prop where
  markets : Partitioned marketOf store.byMarket events
  traders : Partitioned traderOf store.byTrader events
  count : store.totalCount = .ofNat events.length

theorem records_new : Records .new [] := ⟨partitioned_empty, partitioned_empty, rfl⟩

/-- Appending an event with its keys. -/
def record (store : EventStore) (indexed : IndexedEvent) : EventStore :=
  store.append indexed (marketOf indexed) (traderOf indexed)

theorem Records.record {store : EventStore} {events : List IndexedEvent}
    (records : store.Records events) (indexed : IndexedEvent) :
    (store.record indexed).Records (events ++ [indexed]) where
  markets := records.markets.push indexed
  traders := records.traders.push indexed
  count := by
    rw [List.length_append, List.length_singleton, UInt64.ofNat_add, ← records.count]
    rfl

theorem records_foldl (events : List IndexedEvent) :
    (events.foldl EventStore.record .new).Records events := by
  induction events using List.reverseRecOn with
  | nil => exact records_new
  | append_singleton events indexed ih =>
      rw [List.foldl_append]
      exact ih.record indexed

end EventStore

theorem applyEvent_events (indexed : IndexedEvent) (db : PerfDb) :
    (db.applyEvent indexed).events = db.events.record indexed := by
  obtain ⟨blockNumber, blockTimestamp, txHash, txIndex, logIndex, event⟩ := indexed
  cases event with
  | positionClosed =>
      simp only [PerfDb.applyEvent]
      split <;> rfl
  | _ =>
      simp only [PerfDb.applyEvent, PerfDb.publishFound_toStores]
      rfl

theorem applyAll_events (events : List IndexedEvent) (db : PerfDb) :
    (applyAll events db).events = events.foldl EventStore.record db.events := by
  induction events generalizing db with
  | nil => rfl
  | cons indexed events ih =>
      refine (ih (db.applyEvent indexed)).trans ?_
      rw [applyEvent_events]
      rfl

/-- On a fresh database the log records what has been processed. -/
theorem runLive_records {fmt : Wal.Format} {events : List IndexedEvent} {r t : Running}
    (fresh : r.db.events = .new) (run : runLive fmt (events.map .event) r = .ok () t) :
    t.db.events.Records events := by
  have stores := congrArg Stores.events (runLive_events events run)
  change t.db.events = (applyAll events r.db).events at stores
  rw [stores, applyAll_events, fresh]
  exact EventStore.records_foldl events

/-- The block is within the bounds that are given. -/
def Within (fromBlock toBlock : Option UInt64) (indexed : IndexedEvent) : Prop :=
  (∀ first, fromBlock = some first → first ≤ indexed.blockNumber) ∧
    ∀ bound, toBlock = some bound → indexed.blockNumber < bound

theorem inBlockRange_iff (fromBlock toBlock : Option UInt64) (indexed : IndexedEvent) :
    EventStore.inBlockRange fromBlock toBlock indexed = true ↔ Within fromBlock toBlock indexed := by
  cases fromBlock <;> cases toBlock <;> simp [EventStore.inBlockRange, Within]

instance (fromBlock toBlock : Option UInt64) (indexed : IndexedEvent) :
    Decidable (Within fromBlock toBlock indexed) :=
  decidable_of_iff _ (inBlockRange_iff fromBlock toBlock indexed)

theorem routed_within {κ : Type} [DecidableEq κ] (keyOf : IndexedEvent → Option κ) (key : κ)
    (events : List IndexedEvent) (fromBlock toBlock : Option UInt64) :
    (EventStore.routed keyOf key events).filter (EventStore.inBlockRange fromBlock toBlock) =
      events.filter fun indexed => keyOf indexed = some key ∧ Within fromBlock toBlock indexed := by
  rw [EventStore.routed, List.filter_filter]
  refine List.filter_congr fun indexed _ => ?_
  rw [Bool.eq_iff_iff, Bool.and_eq_true, decide_eq_true_iff, decide_eq_true_iff, inBlockRange_iff]
  exact and_comm

/-- Every query of the event log is a filter of the events that were processed, in the
order of their processing, and the count is theirs, as a `u64`. -/
theorem event_queries_filter (fmt : Wal.Format) (events : List IndexedEvent) (r t : Running)
    (fresh : r.db.events = .new) (run : runLive fmt (events.map .event) r = .ok () t) :
    (∀ marketId fromBlock toBlock, t.db.events.eventsByMarket marketId fromBlock toBlock =
      events.filter fun indexed => (extractEventKeys indexed.event).1 = some marketId ∧
        Within fromBlock toBlock indexed) ∧
    (∀ trader fromBlock toBlock, t.db.events.eventsByTrader trader fromBlock toBlock =
      events.filter fun indexed => (extractEventKeys indexed.event).2 = some trader ∧
        Within fromBlock toBlock indexed) ∧
    (∀ marketId count, t.db.events.latestByMarket marketId count =
      ((t.db.events.eventsByMarket marketId none none).rtake count).reverse) ∧
    (∀ trader count, t.db.events.latestByTrader trader count =
      ((t.db.events.eventsByTrader trader none none).rtake count).reverse) ∧
    t.db.events.totalCount = .ofNat events.length := by
  have records := runLive_records fresh run
  have unbounded {κ : Type} [DecidableEq κ] (keyOf : IndexedEvent → Option κ) (key : κ) :
      (EventStore.routed keyOf key events).filter (EventStore.inBlockRange none none) =
        EventStore.routed keyOf key events := List.filter_eq_self.mpr fun _ _ => rfl
  refine ⟨fun marketId fromBlock toBlock => ?_, fun trader fromBlock toBlock => ?_,
    fun marketId count => ?_, fun trader count => ?_, records.count⟩
  · exact (records.markets.query marketId fromBlock toBlock).trans (routed_within _ _ _ _ _)
  · exact (records.traders.query trader fromBlock toBlock).trans (routed_within _ _ _ _ _)
  · rw [EventStore.eventsByMarket, records.markets.query, unbounded]
    exact records.markets.latest marketId count
  · rw [EventStore.eventsByTrader, records.traders.query, unbounded]
    exact records.traders.latest trader count

def pausedAndDeposited : List IndexedEvent :=
  [⟨5, 1700000000, Vector.replicate 32 0, 0, 0, .marketPaused 3⟩,
    ⟨6, 1700000012, Vector.replicate 32 0, 0, 0,
      .collateralDeposited (Vector.replicate 20 1) (Vector.replicate 20 2) 100⟩]

theorem event_queries_filter_deposit :
    ∃ db opened t, PerfDb.open_ Bincode.formats .stored ⟨"data", "wal", 1024, .none⟩ .fresh =
        .ok db opened ∧
      runLive Bincode.format (pausedAndDeposited.map .event) (opened.running db) = .ok () t ∧
      (∀ marketId fromBlock toBlock, t.db.events.eventsByMarket marketId fromBlock toBlock =
        pausedAndDeposited.filter fun indexed =>
          (extractEventKeys indexed.event).1 = some marketId ∧ Within fromBlock toBlock indexed) ∧
      t.db.events.totalCount = 2 := by
  obtain ⟨db, opened, run, stores, ready⟩ := PerfDb.open_blank Bincode.formats .stored
    ⟨"data", "wal", 1024, .none⟩ Disk.fresh_blank
  obtain ⟨t, live⟩ := runLive_returns Bincode.format (pausedAndDeposited.map .event) ready
  obtain ⟨markets, _, _, _, count⟩ := event_queries_filter Bincode.format pausedAndDeposited _ t
    (congrArg Stores.events stores) live
  exact ⟨db, opened, t, run, live, markets, count⟩

def EventStore.Returns (store : EventStore) (indexed : IndexedEvent) : Prop :=
  (∃ marketId, indexed ∈ store.eventsByMarket marketId none none) ∨
    ∃ trader, indexed ∈ store.eventsByTrader trader none none

/-- The variants that name neither a market nor a user. -/
def Event.unrouted : Event → Bool
  | .positionModified _ _ _ _ | .orderExecuted _ _ _ | .adlExecuted _ _ | .vaultDeficit _ _ => true
  | _ => false

theorem unrouted_iff (event : Event) :
    event.unrouted = true ↔ extractEventKeys event = (none, none) := by
  cases event <;> simp [Event.unrouted, extractEventKeys]

theorem EventStore.Records.returns_iff {store : EventStore} {events : List IndexedEvent}
    (records : store.Records events) {indexed : IndexedEvent} (member : indexed ∈ events) :
    store.Returns indexed ↔ indexed.event.unrouted = false := by
  have found {κ : Type} [DecidableEq κ] (keyOf : IndexedEvent → Option κ) (key : κ) :
      indexed ∈ (EventStore.routed keyOf key events).filter (EventStore.inBlockRange none none) ↔
        keyOf indexed = some key := by
    simp [EventStore.routed, EventStore.inBlockRange, member]
  rw [EventStore.Returns, ← Bool.not_eq_true, unrouted_iff]
  simp only [EventStore.eventsByMarket, EventStore.eventsByTrader, records.markets.query,
    records.traders.query, found, ← Option.isSome_iff_exists]
  rw [EventStore.marketOf, EventStore.traderOf, Prod.ext_iff, not_and_or, ← ne_eq, ← ne_eq,
    Option.ne_none_iff_isSome, Option.ne_none_iff_isSome]

/-- Queries return the events that name a market or a user and no others; the count is of
both kinds. -/
theorem routed_events_returned (fmt : Wal.Format) (events : List IndexedEvent) (r t : Running)
    (fresh : r.db.events = .new) (run : runLive fmt (events.map .event) r = .ok () t) :
    (∀ indexed ∈ events, t.db.events.Returns indexed ↔ indexed.event.unrouted = false) ∧
      t.db.events.totalCount = .ofNat
        ((events.countP fun indexed => !indexed.event.unrouted) +
          events.countP fun indexed => indexed.event.unrouted) := by
  have records := runLive_records fresh run
  refine ⟨fun indexed member => records.returns_iff member, ?_⟩
  have both := events.length_eq_countP_add_countP fun indexed => indexed.event.unrouted
  simp only [Bool.not_eq_true, Bool.decide_eq_false] at both
  rw [records.count, both, Nat.add_comm]

theorem routed_events_returned_deposit :
    ∃ db opened t, PerfDb.open_ Bincode.formats .stored ⟨"data", "wal", 1024, .none⟩ .fresh =
        .ok db opened ∧
      runLive Bincode.format (pausedAndDeposited.map .event) (opened.running db) = .ok () t ∧
      ∀ indexed ∈ pausedAndDeposited, t.db.events.Returns indexed ↔
        indexed.event.unrouted = false := by
  obtain ⟨db, opened, run, stores, ready⟩ := PerfDb.open_blank Bincode.formats .stored
    ⟨"data", "wal", 1024, .none⟩ Disk.fresh_blank
  obtain ⟨t, live⟩ := runLive_returns Bincode.format (pausedAndDeposited.map .event) ready
  exact ⟨db, opened, t, run, live, (routed_events_returned Bincode.format pausedAndDeposited _ t
    (congrArg Stores.events stores) live).1⟩

def modifiedOnly : IndexedEvent :=
  ⟨5, 1700000000, Vector.replicate 32 0, 0, 0, .positionModified (Vector.replicate 32 7) 1 1 1⟩

/-- It is counted, and no query returns it. -/
theorem modification_unreachable :
    ∃ db opened t, PerfDb.open_ Bincode.formats .stored ⟨"data", "wal", 1024, .none⟩ .fresh =
        .ok db opened ∧
      runLive Bincode.format [.event modifiedOnly] (opened.running db) = .ok () t ∧
      ¬ t.db.events.Returns modifiedOnly ∧ t.db.events.totalCount = 1 := by
  obtain ⟨db, opened, run, stores, ready⟩ := PerfDb.open_blank Bincode.formats .stored
    ⟨"data", "wal", 1024, .none⟩ Disk.fresh_blank
  obtain ⟨t, live⟩ := runLive_returns Bincode.format [.event modifiedOnly] ready
  have records : t.db.events.Records [modifiedOnly] :=
    runLive_records (congrArg Stores.events stores) live
  have missing := records.returns_iff (List.mem_singleton_self modifiedOnly)
  refine ⟨db, opened, t, run, live, fun returned => ?_, records.count⟩
  exact absurd (missing.mp returned) (by decide)

end Perfdb
