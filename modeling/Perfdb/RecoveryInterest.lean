import Mathlib
import Perfdb.OpenInterest
import Perfdb.Recovery

set_option autoImplicit false

namespace Perfdb

section Replay

variable {table : MarketStateTable} {snapBlock : UInt64}

theorem openInterest_frame {f : MarketSlot → MarketSlot}
    (frame : ∀ slot, (f slot).inner.longOi = slot.inner.longOi ∧
      (f slot).inner.shortOi = slot.inner.shortOi) (market marketId : MarketId) :
    (table.withSlot market f).openInterest marketId = table.openInterest marketId := by
  simp only [MarketStateTable.openInterest, MarketStateTable.withSlot, getElem?_modifySlot]
  by_cases same : market.toNat = marketId.toNat
  · rw [if_pos same]
    cases table.slots[marketId.toNat]? with
    | none => rfl
    | some slot => simp only [Option.map_some, (frame slot).1, (frame slot).2]
  · rw [if_neg same]

theorem replayWalEntry_openInterest (entry : WalEntry) (stores : Stores) (marketId : MarketId) :
    (replayWalEntry snapBlock entry stores).marketState.openInterest marketId =
      stores.marketState.openInterest marketId := by
  cases entry with
  | priceTick =>
      refine openInterest_frame (fun slot => ?_) _ marketId
      exact ⟨rfl, rfl⟩
  | indexedEvent indexed =>
      rw [replayWalEntry]
      split
      · rfl
      · obtain ⟨blockNumber, blockTimestamp, txHash, txIndex, logIndex, event⟩ := indexed
        cases event with
        | fundingRateUpdated | marketPaused =>
            refine openInterest_frame (fun slot => ?_) _ marketId
            exact ⟨rfl, rfl⟩
        | _ => rfl
  | _ => rfl

theorem replayEntries_openInterest (entries : List WalEntry) (stores : Stores)
    (marketId : MarketId) :
    (replayEntries snapBlock entries stores).marketState.openInterest marketId =
      stores.marketState.openInterest marketId := by
  induction entries generalizing stores with
  | nil => rfl
  | cons entry entries ih =>
      exact (ih _).trans (replayWalEntry_openInterest entry stores marketId)

end Replay

def Event.openedSide (id : Hash) : Event → Option Bool
  | .positionOpened positionId _ _ isLong _ _ _ _ _ => if positionId = id then some isLong else none
  | _ => none

/-- The side a position was last opened on. -/
def sideOf (id : Hash) (history : List IndexedEvent) : Option Bool :=
  (history.filterMap fun indexed => indexed.event.openedSide id).getLast?

/-- What an event opens, less what it closes, on one side of a market. -/
def Event.opens (history : List IndexedEvent) (marketId : MarketId) (isLong : Bool) :
    Event → FixedI128
  | .positionOpened _ _ market long sizeUsd _ _ _ _ =>
      if market = marketId ∧ long = isLong then sizeUsd else 0
  | .positionClosed positionId _ market closedSizeUsd _ _ _ =>
      if market = marketId ∧ sideOf positionId history = some isLong then -closedSizeUsd else 0
  | _ => 0

/-- What the events after some others open, less what they close. -/
def netOpened (marketId : MarketId) (isLong : Bool) :
    List IndexedEvent → List IndexedEvent → FixedI128
  | _, [] => 0
  | history, indexed :: events =>
      indexed.event.opens history marketId isLong +
        netOpened marketId isLong (history ++ [indexed]) events

section Live

/-- Positions are stored on the side they were last opened on. -/
def Sided (history : List IndexedEvent) (table : PositionTable) : Prop :=
  ∀ id, (table.get id).map Position.isLong = sideOf id history

theorem sideOf_append_one (id : Hash) (history : List IndexedEvent) (indexed : IndexedEvent) :
    sideOf id (history ++ [indexed]) =
      ((indexed.event.openedSide id).or (sideOf id history)) := by
  rw [sideOf, List.filterMap_append, List.filterMap_cons, sideOf]
  cases indexed.event.openedSide id <;> simp

theorem Sided.event {history : List IndexedEvent} {table : PositionTable}
    (sided : Sided history table) (indexed : IndexedEvent) :
    Sided (history ++ [indexed]) (indexed.onPositions table) := by
  intro id
  rw [sideOf_append_one, ← sided id]
  obtain ⟨blockNumber, blockTimestamp, txHash, txIndex, logIndex, event⟩ := indexed
  cases event with
  | positionOpened positionId =>
      simp only [IndexedEvent.onPositions, PositionTable.get_insert, Event.openedSide]
      split
      · rename_i same
        obtain rfl : positionId = id := same
        simp [IndexedEvent.opened]
      · rename_i other
        have apart : positionId ≠ id := other
        simp [apart]
  | positionClosed positionId user marketId closedSizeUsd exitPrice realizedPnl isFullClose =>
      simp only [IndexedEvent.onPositions, PositionTable.get_update, Event.openedSide,
        Option.none_or]
      split
      · rename_i same
        subst same
        cases isFullClose <;> simp [Function.comp_def]
      · rfl
  | positionModified | liquidation =>
      simp only [IndexedEvent.onPositions, PositionTable.get_update, Event.openedSide,
        Option.none_or]
      split
      · rename_i same
        subst same
        simp [Function.comp_def]
      · rfl
  | _ => rfl

/-- What an event adds to the open interest is what it opens less what it closes. -/
theorem interest_eq {history : List IndexedEvent} {table : PositionTable}
    (sided : Sided history table) (indexed : IndexedEvent) (marketId : MarketId) (isLong : Bool) :
    indexed.interest table marketId isLong = indexed.event.opens history marketId isLong := by
  obtain ⟨blockNumber, blockTimestamp, txHash, txIndex, logIndex, event⟩ := indexed
  cases event with
  | positionClosed positionId =>
      simp only [IndexedEvent.interest, Event.opens, ← sided positionId]
      cases table.get positionId <;> simp
  | _ => rfl

theorem applyAll_sideOi {history : List IndexedEvent} {db : PerfDb}
    (sided : Sided history db.positions) (events : List IndexedEvent) (marketId : MarketId)
    (isLong : Bool) (inside : marketId.toNat < marketCount) :
    (applyAll events db).marketState.sideOi marketId isLong =
      db.marketState.sideOi marketId isLong + netOpened marketId isLong history events := by
  induction events generalizing history db with
  | nil => exact (add_zero _).symm
  | cons indexed events ih =>
      have next : Sided (history ++ [indexed]) (db.applyEvent indexed).positions := by
        rw [applyEvent_positions]
        exact sided.event indexed
      have rest := ih next
      rw [applyEvent_sideOi _ _ _ _ inside, interest_eq sided, add_assoc] at rest
      exact rest

end Live

/-- Events before a snapshot, the snapshot, and events after it; or events only. -/
def sessionActions (saved : Option (List IndexedEvent × Iteration)) (events : List IndexedEvent) :
    List Action :=
  (match saved with
    | some (before, order) => before.map .event ++ [.snapshot order]
    | none => []) ++ events.map .event

/-- Whoever opens the database again finds its open interest. -/
def Running.InterestRecovers (fmts : Formats) (r : Running) : Prop :=
  ∀ order config, ∃ db later, PerfDb.open_ fmts order config r.close = .ok db later ∧
    ∀ marketId, db.marketState.openInterest marketId = r.db.marketState.openInterest marketId

section Session

variable {fmts : Formats} {c : Course} {r : Running}

theorem foldl_step_events (events : List IndexedEvent) (c : Course) :
    (events.map Action.event).foldl Course.step c =
      { c with db := applyAll events c.db, tail := c.tail ++ events.map .indexedEvent } := by
  induction events generalizing c with
  | nil => simp [applyAll]
  | cons indexed events ih =>
      rw [List.map_cons, List.foldl_cons, ih]
      simp [Course.step, applyAll]

theorem events_follow (walInverse : fmts.wal.RoundTrips) (events : List IndexedEvent)
    (follows : Follows fmts c r)
    (valid : ∀ action ∈ events.map Action.event, action.Valid fmts.wal) :
    ∃ t, runActions fmts (events.map .event) r = .ok () t ∧
      Follows fmts { c with db := applyAll events c.db,
                            tail := c.tail ++ events.map .indexedEvent } t := by
  have followed := runActions_follows walInverse (events.map .event) follows valid
    fun front action inside => by
      obtain ⟨indexed, _, rfl⟩ := List.mem_map.mp (inside.subset (List.mem_append_right _
        (List.mem_singleton_self _)))
      trivial
  rwa [foldl_step_events] at followed

/-- The history of a session on a new database. -/
theorem session_follows (walInverse : fmts.wal.RoundTrips)
    (saved : Option (List IndexedEvent × Iteration)) (events : List IndexedEvent)
    (valid : ∀ action ∈ sessionActions saved events, action.Valid fmts.wal) {db : PerfDb}
    (follows : Follows fmts (Course.start db) r) :
    ∃ t last, runActions fmts (sessionActions saved events) r = .ok () t ∧ Follows fmts last t ∧
      last.latest = saved.map (fun (before, order) => (applyAll before db).stateSnapshot order) ∧
      last.db = applyAll events (applyAll ((saved.map Prod.fst).getD []) db) := by
  cases saved with
  | none =>
      obtain ⟨t, returned, reached⟩ := events_follow walInverse events follows valid
      exact ⟨t, _, returned, reached, rfl, rfl⟩
  | some pair =>
      obtain ⟨before, order⟩ := pair
      have known (action : Action) (member : action ∈ before.map Action.event) :
          action.Valid fmts.wal :=
        valid action (List.mem_append_left _ (List.mem_append_left _ member))
      obtain ⟨u, first, middle⟩ := events_follow walInverse before follows known
      obtain ⟨v, second, written⟩ := middle.step walInverse
        (valid (.snapshot order) (by simp [sessionActions])) fun old some => by contradiction
      obtain ⟨t, third, reached⟩ := events_follow walInverse events written
        fun action member => valid action (List.mem_append_right _ member)
      refine ⟨t, _, ?_, reached, rfl, rfl⟩
      exact runActions_of_append (runActions_of_append first ((bind_of_ok second).trans rfl)) third

theorem reopened_openInterest (c : Course) (marketId : MarketId) :
    c.reopened.marketState.openInterest marketId =
      (restored c.latest).marketState.openInterest marketId :=
  replayEntries_openInterest _ _ marketId

end Session

theorem sided_new : Sided [] .new := by
  intro id
  rw [PositionTable.get_new]
  rfl

theorem applyAll_sided {history : List IndexedEvent} {db : PerfDb}
    (sided : Sided history db.positions) (events : List IndexedEvent) :
    Sided (history ++ events) (applyAll events db).positions := by
  induction events generalizing history db with
  | nil => rwa [List.append_nil]
  | cons indexed events ih =>
      have next : Sided (history ++ [indexed]) (db.applyEvent indexed).positions := by
        rw [applyEvent_positions]
        exact sided.event indexed
      have rest := ih next
      rwa [List.append_assoc] at rest

theorem interestRecovers_iff {fmts : Formats} {c : Course} {r : Running}
    (follows : Follows fmts c r) (inverse : fmts.snapshot.RoundTrips) :
    r.InterestRecovers fmts ↔ ∀ marketId,
      (restored c.latest).marketState.openInterest marketId =
        c.db.marketState.openInterest marketId := by
  have live := follows.stores
  constructor
  · intro recover marketId
    obtain ⟨db, later, opened, same⟩ := recover .stored ⟨"", "", 0, .none⟩
    obtain ⟨db', later', again, stores⟩ := follows.reopen inverse .stored ⟨"", "", 0, .none⟩
    obtain ⟨rfl, rfl⟩ := EStateM.Result.ok.inj (opened.symm.trans again)
    have here := same marketId
    rwa [stores, live, reopened_openInterest] at here
  · intro same order config
    obtain ⟨db, later, opened, stores⟩ := follows.reopen inverse order config
    refine ⟨db, later, opened, fun marketId => ?_⟩
    rw [stores, live, reopened_openInterest]
    exact same marketId

/-- A snapshot of a session brings back the open interest it was taken of. -/
theorem restored_openInterest {saved : Option (List IndexedEvent × Iteration)} {db : PerfDb}
    {latest : Option StateSnapshot} (empty : db.toStores = .new)
    (taken : latest = saved.map fun (before, order) => (applyAll before db).stateSnapshot order) :
    (restored latest).marketState =
      (applyAll ((saved.map Prod.fst).getD []) db).marketState := by
  cases saved with
  | none =>
      rw [taken]
      change Stores.new.marketState = db.marketState
      rw [empty]
  | some pair =>
      obtain ⟨before, order⟩ := pair
      rw [taken]
      exact restore_markets order (applyAll before db).toStores

theorem openInterest_eq_iff (left right : MarketStateTable) :
    (∀ marketId, left.openInterest marketId = right.openInterest marketId) ↔
      ∀ marketId isLong, marketId.toNat < marketCount →
        left.sideOi marketId isLong = right.sideOi marketId isLong := by
  constructor
  · intro same marketId isLong _
    rw [MarketStateTable.sideOi, same, MarketStateTable.sideOi]
  · intro sides marketId
    by_cases inside : marketId.toNat < marketCount
    · exact Prod.ext (sides marketId true inside) (sides marketId false inside)
    · have outside (table : MarketStateTable) : table.slots[marketId.toNat]? = none :=
        Vector.getElem?_eq_none (Nat.not_lt.mp inside)
      simp only [MarketStateTable.openInterest, outside]

/-- The open interest of a session on a new database recovers exactly when the events
after its snapshot close on each side of each market what they open. -/
theorem interest_recovers_iff (fmts : Formats) (walInverse : fmts.wal.RoundTrips)
    (inverse : fmts.snapshot.RoundTrips) (saved : Option (List IndexedEvent × Iteration))
    (events : List IndexedEvent)
    (valid : ∀ action ∈ sessionActions saved events, action.Valid fmts.wal)
    (order : Iteration) (config : PerfDbConfig) (disk opened : Disk) (blank : disk.Blank)
    (db : PerfDb) (run : PerfDb.open_ fmts order config disk = .ok db opened) (r : Running)
    (returned : runActions fmts (sessionActions saved events) (opened.running db) = .ok () r) :
    r.InterestRecovers fmts ↔
      ∀ marketId isLong, marketId.toNat < marketCount →
        netOpened marketId isLong ((saved.map Prod.fst).getD []) events = 0 := by
  obtain ⟨db', opened', again, empty, follows⟩ := follows_blank fmts order config blank
  obtain ⟨rfl, rfl⟩ := EStateM.Result.ok.inj (again.symm.trans run)
  obtain ⟨r', last, returned', reached, latest, final⟩ :=
    session_follows walInverse saved events valid follows
  obtain ⟨_, rfl⟩ := EStateM.Result.ok.inj (returned'.symm.trans returned)
  rw [interestRecovers_iff reached inverse, restored_openInterest empty latest, final]
  have sided : Sided ((saved.map Prod.fst).getD [])
      (applyAll ((saved.map Prod.fst).getD []) db').positions := by
    have start : Sided [] db'.positions := by
      rw [empty]
      exact sided_new
    exact applyAll_sided start _
  rw [openInterest_eq_iff]
  refine forall_congr' fun marketId => forall_congr' fun isLong => forall_congr' fun inside => ?_
  rw [applyAll_sideOi sided events marketId isLong inside, left_eq_add]

/-- A long position of 100 in market 0. -/
def openedLong : IndexedEvent :=
  ⟨1, 1700000000, Vector.replicate 32 0, 0, 0, .positionOpened (Vector.replicate 32 7)
    (Vector.replicate 20 1) 0 true 100 10 1 (Vector.replicate 20 2) 10⟩

theorem openedLong_valid : ∀ action ∈ sessionActions none [openedLong],
    action.Valid Bincode.format := by
  intro action member
  obtain rfl := List.mem_singleton.mp member
  refine ⟨fun sample same => by contradiction, fun entry logged => ?_⟩
  obtain rfl := Option.some.inj logged
  unfold Wal.Format.Fits
  decide +kernel

theorem interest_recovers_iff_long :
    ∃ db opened r, PerfDb.open_ Bincode.formats .stored ⟨"data", "wal", 1024, .none⟩ .fresh =
        .ok db opened ∧
      runActions Bincode.formats (sessionActions none [openedLong]) (opened.running db) =
        .ok () r ∧
      (r.InterestRecovers Bincode.formats ↔
        ∀ marketId isLong, marketId.toNat < marketCount →
          netOpened marketId isLong [] [openedLong] = 0) := by
  obtain ⟨db, opened, run, _, follows⟩ := follows_blank Bincode.formats .stored
    ⟨"data", "wal", 1024, .none⟩ Disk.fresh_blank
  obtain ⟨r, _, returned, _⟩ := session_follows Bincode.format_roundTrips none [openedLong]
    openedLong_valid follows
  exact ⟨db, opened, r, run, returned, interest_recovers_iff Bincode.formats
    Bincode.format_roundTrips Bincode.snapshotFormat_roundTrips none [openedLong] openedLong_valid
    .stored ⟨"data", "wal", 1024, .none⟩ .fresh opened Disk.fresh_blank db run r returned⟩

/-- The position comes back, its open interest does not. -/
theorem long_interest_lost :
    ∃ db opened r, PerfDb.open_ Bincode.formats .stored ⟨"data", "wal", 1024, .none⟩ .fresh =
        .ok db opened ∧
      runActions Bincode.formats (sessionActions none [openedLong]) (opened.running db) =
        .ok () r ∧
      ¬ r.InterestRecovers Bincode.formats := by
  obtain ⟨db, opened, run, empty, follows⟩ := follows_blank Bincode.formats .stored
    ⟨"data", "wal", 1024, .none⟩ Disk.fresh_blank
  obtain ⟨r, last, returned, reached, latest, final⟩ := session_follows
    Bincode.format_roundTrips none [openedLong] openedLong_valid follows
  refine ⟨db, opened, r, run, returned, fun recover => ?_⟩
  have same := (interestRecovers_iff reached Bincode.snapshotFormat_roundTrips).mp recover
  have sided : Sided [] db.positions := by
    rw [empty]
    exact sided_new
  have moved := applyAll_sideOi sided [openedLong] 0 true (by decide)
  have kept := (openInterest_eq_iff _ _).mp same 0 true (by decide)
  rw [latest, final] at kept
  change Stores.new.marketState.sideOi 0 true = (applyAll [openedLong] db).marketState.sideOi 0 true
    at kept
  rw [moved, empty, left_eq_add] at kept
  exact absurd kept (by decide)

end Perfdb
