import Mathlib
import Perfdb.EventEffects
import Perfdb.SnapshotBincode

set_option autoImplicit false

namespace Perfdb

namespace Event

def Opens (id : Hash) : Event → Prop
  | .positionOpened positionId _ _ _ _ _ _ _ _ => positionId = id
  | _ => False

/-- The event closes the position, in part or in full, or liquidates it. -/
def Ends (id : Hash) : Event → Prop
  | .positionClosed positionId _ _ _ _ _ _ => positionId = id
  | .liquidation positionId _ _ _ _ _ => positionId = id
  | _ => False

/-- The size, collateral and collateral amount that the event gives the position. -/
def modification (id : Hash) : Event → Option (FixedI128 × FixedI128 × FixedI128)
  | .positionModified positionId newSizeUsd newCollateralUsd newCollateralAmount =>
      if positionId = id then some (newSizeUsd, newCollateralUsd, newCollateralAmount) else none
  | _ => none

end Event

def lastModification (id : Hash) (events : List IndexedEvent) :
    Option (FixedI128 × FixedI128 × FixedI128) :=
  (events.filterMap fun indexed => indexed.event.modification id).getLast?

/-- Whoever opens a position for good opens it at price zero, nothing ends it afterwards,
and its last modification restates what it was opened with. -/
def Restated (events : List IndexedEvent) : Prop :=
  ∀ before indexed after positionId user marketId isLong sizeUsd leverage entryPrice
    collateralToken collateralAmount,
    events = before ++ indexed :: after →
    indexed.event = .positionOpened positionId user marketId isLong sizeUsd leverage entryPrice
      collateralToken collateralAmount →
    (∀ later ∈ after, ¬ later.event.Opens positionId) →
    entryPrice = 0 ∧ (∀ later ∈ after, ¬ later.event.Ends positionId) ∧
      ∀ values, lastModification positionId after = some values →
        values = (sizeUsd, sizeUsd / max leverage 1, collateralAmount)

def Position.modified (p : Position) (values : Option (FixedI128 × FixedI128 × FixedI128)) :
    Position :=
  match values with
  | some (sizeUsd, collateralUsd, collateralAmount) =>
      { p with sizeUsd, collateralUsd, collateralAmount }
  | none => p

section Step

variable (indexed : IndexedEvent) (db : PerfDb) (stores : Stores) (id : Hash)

/-- A live event that neither opens nor ends a position can only modify it. -/
theorem applyEvent_get_of_quiet (opens : ¬ indexed.event.Opens id)
    (ends : ¬ indexed.event.Ends id) :
    (db.applyEvent indexed).positions.get id =
      (db.positions.get id).map fun p => p.modified (indexed.event.modification id) := by
  obtain ⟨blockNumber, blockTimestamp, txHash, txIndex, logIndex, event⟩ := indexed
  cases event with
  | positionOpened =>
      simp only [Event.Opens] at opens
      simp [PerfDb.applyEvent, PositionTable.get_insert, opens, Event.modification,
        Position.modified]
  | positionClosed =>
      simp only [Event.Ends] at ends
      simp only [PerfDb.applyEvent]
      split <;> simp [PositionTable.get_update, ends, Event.modification, Position.modified]
  | liquidation =>
      simp only [Event.Ends] at ends
      simp [PerfDb.applyEvent, PositionTable.get_update, ends, Event.modification,
        Position.modified]
  | positionModified positionId =>
      simp only [PerfDb.applyEvent, PerfDb.publishFound_toStores, PositionTable.get_update,
        Event.modification]
      split
      · rename_i same
        rw [same]
        rfl
      · simp [Position.modified]
  | _ => simp [PerfDb.applyEvent, Event.modification, Position.modified]

theorem applyEvent_get_of_ends (ends : indexed.event.Ends id) :
    ∃ mark : Position → Position, (∀ p, (mark p).closeTx.isSome) ∧
      (db.applyEvent indexed).positions.get id = (db.positions.get id).map mark := by
  obtain ⟨blockNumber, blockTimestamp, txHash, txIndex, logIndex, event⟩ := indexed
  cases event with
  | positionClosed positionId user marketId closedSizeUsd exitPrice realizedPnl isFullClose =>
      obtain rfl : positionId = id := ends
      simp only [PerfDb.applyEvent]
      split <;> refine ⟨_, ?_, by rw [PositionTable.get_update, if_pos rfl]⟩ <;>
        intro p <;> cases isFullClose <;> rfl
  | liquidation positionId =>
      obtain rfl : positionId = id := ends
      simp only [PerfDb.applyEvent]
      refine ⟨_, ?_, by rw [PositionTable.get_update, if_pos rfl]⟩
      intro p
      rfl
  | _ => exact ends.elim

/-- Replay of an event that neither opens nor ends a position leaves it. -/
theorem replayEvent_get_of_quiet (opens : ¬ indexed.event.Opens id)
    (ends : ¬ indexed.event.Ends id) :
    (replayEvent indexed stores).positions.get id = stores.positions.get id := by
  obtain ⟨blockNumber, blockTimestamp, txHash, txIndex, logIndex, event⟩ := indexed
  cases event with
  | positionOpened =>
      simp only [Event.Opens] at opens
      simp [replayEvent, PositionTable.get_insert, opens]
  | positionClosed | liquidation =>
      simp only [Event.Ends] at ends
      simp [replayEvent, PositionTable.get_update, ends]
  | _ => rfl

theorem replayEvent_get_of_ends (ends : indexed.event.Ends id) :
    ∃ change : Position → Position, (∀ p, (change p).closeTx = p.closeTx) ∧
      (replayEvent indexed stores).positions.get id = (stores.positions.get id).map change := by
  obtain ⟨blockNumber, blockTimestamp, txHash, txIndex, logIndex, event⟩ := indexed
  cases event with
  | positionClosed positionId user marketId closedSizeUsd exitPrice realizedPnl isFullClose =>
      obtain rfl : positionId = id := ends
      simp only [replayEvent]
      refine ⟨_, ?_, by rw [PositionTable.get_update, if_pos rfl]⟩
      intro p
      cases isFullClose <;> rfl
  | liquidation positionId =>
      obtain rfl : positionId = id := ends
      simp only [replayEvent]
      refine ⟨_, ?_, by rw [PositionTable.get_update, if_pos rfl]⟩
      intro p
      rfl
  | _ => exact ends.elim

theorem applyEvent_indexes (users : db.positions.byUser = stores.positions.byUser)
    (markets : db.positions.byMarket = stores.positions.byMarket) :
    (db.applyEvent indexed).positions.byUser = (replayEvent indexed stores).positions.byUser ∧
      (db.applyEvent indexed).positions.byMarket =
        (replayEvent indexed stores).positions.byMarket := by
  obtain ⟨blockNumber, blockTimestamp, txHash, txIndex, logIndex, event⟩ := indexed
  cases event with
  | positionOpened =>
      simp [PerfDb.applyEvent, replayEvent, PositionTable.insert, users, markets]
  | positionClosed =>
      simp only [PerfDb.applyEvent, replayEvent]
      split <;> exact ⟨users, markets⟩
  | _ =>
      simp only [PerfDb.applyEvent, replayEvent, PerfDb.publishFound_toStores]
      exact ⟨users, markets⟩

end Step

/-- Replay of a list of events none of which is skipped. -/
def replayAll (events : List IndexedEvent) (stores : Stores) : Stores :=
  events.foldl (fun stores indexed => replayEvent indexed stores) stores

theorem replayEntries_events {snapBlock : UInt64} (events : List IndexedEvent)
    (after : ∀ indexed ∈ events, snapBlock < indexed.blockNumber) (stores : Stores) :
    replayEntries snapBlock (events.map .indexedEvent) stores = replayAll events stores := by
  rw [replayEntries, List.foldl_map, replayAll]
  apply List.foldl_ext
  intro acc indexed member
  exact replayWalEntry_event (after indexed member)

@[simp] theorem Position.modified_modified (p : Position)
    (first second : Option (FixedI128 × FixedI128 × FixedI128)) :
    (p.modified first).modified second = p.modified (second.or first) := by
  cases first <;> cases second <;> rfl

@[simp] theorem Position.modified_closeTx (p : Position)
    (values : Option (FixedI128 × FixedI128 × FixedI128)) :
    (p.modified values).closeTx = p.closeTx := by
  cases values <;> rfl

theorem lastModification_cons (id : Hash) (indexed : IndexedEvent) (events : List IndexedEvent) :
    lastModification id (indexed :: events) =
      (lastModification id events).or (indexed.event.modification id) := by
  unfold lastModification
  cases first : indexed.event.modification id with
  | none => simp only [List.filterMap_cons, first, Option.or_none]
  | some values =>
      simp only [List.filterMap_cons, first, List.getLast?_cons]
      cases (events.filterMap fun indexed => indexed.event.modification id).getLast? <;> rfl

section Runs

variable {id : Hash} {events : List IndexedEvent}
  (opens : ∀ indexed ∈ events, ¬ indexed.event.Opens id)

include opens

theorem applyAll_get_of_quiet (ends : ∀ indexed ∈ events, ¬ indexed.event.Ends id) (db : PerfDb) :
    (applyAll events db).positions.get id =
      (db.positions.get id).map fun p => p.modified (lastModification id events) := by
  induction events generalizing db with
  | nil => simp [applyAll, lastModification, Position.modified]
  | cons indexed events ih =>
      simp only [List.forall_mem_cons] at opens ends
      have first := applyEvent_get_of_quiet indexed db id opens.1 ends.1
      have rest := ih opens.2 ends.2 (db.applyEvent indexed)
      rw [first, Option.map_map] at rest
      simpa only [applyAll, List.foldl_cons, lastModification_cons, Function.comp_def,
        Position.modified_modified] using rest

/-- A mark stays until the position is opened again. -/
theorem applyAll_get_of_ends {db : PerfDb} {p : Position} (found : db.positions.get id = some p)
    (marked : p.closeTx.isSome ∨ ∃ indexed ∈ events, indexed.event.Ends id) :
    ∃ q, (applyAll events db).positions.get id = some q ∧ q.closeTx.isSome := by
  induction events generalizing db p with
  | nil =>
      refine ⟨p, found, marked.resolve_right ?_⟩
      rintro ⟨_, member, _⟩
      cases member
  | cons indexed events ih =>
      simp only [List.forall_mem_cons] at opens
      by_cases ends : indexed.event.Ends id
      · obtain ⟨mark, marks, first⟩ := applyEvent_get_of_ends indexed db id ends
        rw [found] at first
        exact ih opens.2 first (Or.inl (marks p))
      · have first := applyEvent_get_of_quiet indexed db id opens.1 ends
        rw [found] at first
        refine ih opens.2 first ?_
        rw [Position.modified_closeTx]
        refine marked.imp_right ?_
        rintro ⟨other, member, later⟩
        rcases List.mem_cons.mp member with rfl | member
        · exact (ends later).elim
        · exact ⟨other, member, later⟩

theorem replayAll_get_of_quiet (ends : ∀ indexed ∈ events, ¬ indexed.event.Ends id)
    (stores : Stores) : (replayAll events stores).positions.get id = stores.positions.get id := by
  induction events generalizing stores with
  | nil => rfl
  | cons indexed events ih =>
      simp only [List.forall_mem_cons] at opens ends
      exact (ih opens.2 ends.2 (replayEvent indexed stores)).trans
        (replayEvent_get_of_quiet indexed stores id opens.1 ends.1)

theorem replayAll_get_unmarked {stores : Stores} {p : Position}
    (found : stores.positions.get id = some p) (unmarked : p.closeTx = none) :
    ∃ q, (replayAll events stores).positions.get id = some q ∧ q.closeTx = none := by
  induction events generalizing stores p with
  | nil => exact ⟨p, found, unmarked⟩
  | cons indexed events ih =>
      simp only [List.forall_mem_cons] at opens
      by_cases ends : indexed.event.Ends id
      · obtain ⟨change, keeps, first⟩ := replayEvent_get_of_ends indexed stores id ends
        rw [found] at first
        exact ih opens.2 first ((keeps p).trans unmarked)
      · have first := replayEvent_get_of_quiet indexed stores id opens.1 ends
        exact ih opens.2 (first.trans found) unmarked

theorem all_get_absent (db : PerfDb) (stores : Stores) (live : db.positions.get id = none)
    (replayed : stores.positions.get id = none) :
    (applyAll events db).positions.get id = none ∧
      (replayAll events stores).positions.get id = none := by
  induction events generalizing db stores with
  | nil => exact ⟨live, replayed⟩
  | cons indexed events ih =>
      simp only [List.forall_mem_cons] at opens
      by_cases ends : indexed.event.Ends id
      · obtain ⟨_, _, first⟩ := applyEvent_get_of_ends indexed db id ends
        obtain ⟨_, _, second⟩ := replayEvent_get_of_ends indexed stores id ends
        rw [live] at first
        rw [replayed] at second
        exact ih opens.2 _ _ first second
      · have first := applyEvent_get_of_quiet indexed db id opens.1 ends
        have second := replayEvent_get_of_quiet indexed stores id opens.1 ends
        rw [live] at first
        exact ih opens.2 _ _ first (second.trans replayed)

end Runs

section Opening

variable {indexed : IndexedEvent} {positionId : Hash} {user : Address} {marketId : MarketId}
  {isLong : Bool} {sizeUsd leverage entryPrice : FixedI128} {collateralToken : Address}
  {collateralAmount : FixedI128}
  (event : indexed.event = .positionOpened positionId user marketId isLong sizeUsd leverage
    entryPrice collateralToken collateralAmount)

include event

theorem applyEvent_get_opened (db : PerfDb) : (db.applyEvent indexed).positions.get positionId =
    some (indexed.opened positionId user marketId isLong sizeUsd leverage entryPrice
      collateralToken collateralAmount) := by
  simp only [PerfDb.applyEvent, event]
  rw [PositionTable.get_insert, if_pos rfl]
  rfl

theorem replayEvent_get_opened (stores : Stores) :
    (replayEvent indexed stores).positions.get positionId =
      some (indexed.opened positionId user marketId isLong sizeUsd leverage 0
        collateralToken collateralAmount) := by
  simp only [replayEvent, event]
  rw [PositionTable.get_insert, if_pos rfl]
  rfl

/-- From an opening on that no other follows, both sides agree when the history restates
what was opened, and then only. -/
theorem opened_get_iff {after : List IndexedEvent}
    (last : ∀ later ∈ after, ¬ later.event.Opens positionId) (db : PerfDb) (stores : Stores) :
    (applyAll after (db.applyEvent indexed)).positions.get positionId =
        (replayAll after (replayEvent indexed stores)).positions.get positionId ↔
      entryPrice = 0 ∧ (∀ later ∈ after, ¬ later.event.Ends positionId) ∧
        ∀ values, lastModification positionId after = some values →
          values = (sizeUsd, sizeUsd / max leverage 1, collateralAmount) := by
  have live := applyEvent_get_opened event db
  have replayed := replayEvent_get_opened event stores
  by_cases ends : ∃ later ∈ after, later.event.Ends positionId
  · obtain ⟨p, liveGet, marked⟩ := applyAll_get_of_ends last live (Or.inr ends)
    obtain ⟨q, replayGet, unmarked⟩ := replayAll_get_unmarked last replayed rfl
    rw [liveGet, replayGet]
    obtain ⟨later, member, ending⟩ := ends
    refine ⟨fun same => ?_, fun restated => (restated.2.1 later member ending).elim⟩
    rw [Option.some.inj same, unmarked] at marked
    contradiction
  · have quiet : ∀ later ∈ after, ¬ later.event.Ends positionId :=
      fun later member ending => ends ⟨later, member, ending⟩
    rw [applyAll_get_of_quiet last quiet, replayAll_get_of_quiet last quiet, live, replayed]
    cases lastModification positionId after with
    | none =>
        simp only [Option.map_some, Position.modified, IndexedEvent.opened, Option.some.injEq,
          Position.mk.injEq, true_and, and_true, reduceCtorEq, false_implies, implies_true]
        exact ⟨fun same => ⟨same, quiet⟩, fun restated => restated.1⟩
    | some values =>
        obtain ⟨newSizeUsd, newCollateralUsd, newCollateralAmount⟩ := values
        simp only [Option.map_some, Position.modified, IndexedEvent.opened, Option.some.injEq,
          Position.mk.injEq, true_and, and_true, forall_eq', Prod.mk.injEq]
        constructor
        · rintro ⟨size, collateral, amount, price⟩
          exact ⟨price, quiet, size, collateral, amount⟩
        · rintro ⟨price, _, size, collateral, amount⟩
          exact ⟨size, collateral, amount, price⟩

end Opening

theorem replayAll_append (front back : List IndexedEvent) (stores : Stores) :
    replayAll (front ++ back) stores = replayAll back (replayAll front stores) :=
  List.foldl_append

theorem all_indexes (events : List IndexedEvent) (db : PerfDb) (stores : Stores)
    (users : db.positions.byUser = stores.positions.byUser)
    (markets : db.positions.byMarket = stores.positions.byMarket) :
    (applyAll events db).positions.byUser = (replayAll events stores).positions.byUser ∧
      (applyAll events db).positions.byMarket = (replayAll events stores).positions.byMarket := by
  induction events generalizing db stores with
  | nil => exact ⟨users, markets⟩
  | cons indexed events ih =>
      obtain ⟨nextUsers, nextMarkets⟩ := applyEvent_indexes indexed db stores users markets
      exact ih _ _ nextUsers nextMarkets

theorem exists_last {α : Type} (p : α → Prop) (items : List α) (some : ∃ item ∈ items, p item) :
    ∃ before item after, items = before ++ item :: after ∧ p item ∧
      ∀ later ∈ after, ¬ p later := by
  induction items with
  | nil =>
      obtain ⟨_, member, _⟩ := some
      cases member
  | cons head items ih =>
      by_cases rest : ∃ item ∈ items, p item
      · obtain ⟨before, item, after, rfl, holds, last⟩ := ih rest
        exact ⟨head :: before, item, after, rfl, holds, last⟩
      · obtain ⟨item, member, holds⟩ := some
        rcases List.mem_cons.mp member with rfl | member
        · exact ⟨[], item, items, rfl, holds, fun later inside opens => rest ⟨later, inside, opens⟩⟩
        · exact (rest ⟨item, member, holds⟩).elim

theorem Event.Opens.fields {id : Hash} {event : Event} (opens : event.Opens id) :
    ∃ user marketId isLong sizeUsd leverage entryPrice collateralToken collateralAmount,
      event = .positionOpened id user marketId isLong sizeUsd leverage entryPrice
        collateralToken collateralAmount := by
  cases event with
  | positionOpened =>
      obtain rfl := opens
      exact ⟨_, _, _, _, _, _, _, _, rfl⟩
  | _ => exact opens.elim

/-- From tables without positions both sides get the same table exactly for the
histories that restate what they open. -/
theorem all_positions_iff (events : List IndexedEvent) {db : PerfDb} {stores : Stores}
    (live : db.positions = .new) (replayed : stores.positions = .new) :
    (applyAll events db).positions = (replayAll events stores).positions ↔ Restated events := by
  constructor
  · rintro same before indexed after positionId user marketId isLong sizeUsd leverage entryPrice
      collateralToken collateralAmount rfl event last
    refine (opened_get_iff event last (applyAll before db) (replayAll before stores)).mp ?_
    rw [applyAll_append, replayAll_append] at same
    exact congrArg (fun table => table.get positionId) same
  · intro restated
    obtain ⟨users, markets⟩ := all_indexes events db stores
      (by rw [live, replayed]) (by rw [live, replayed])
    refine PositionTable.ext_get (fun id => ?_) users markets
    by_cases opens : ∃ indexed ∈ events, indexed.event.Opens id
    · obtain ⟨before, indexed, after, rfl, opening, last⟩ :=
        exists_last (fun indexed => indexed.event.Opens id) events opens
      obtain ⟨_, _, _, _, _, _, _, _, event⟩ := opening.fields
      rw [applyAll_append, replayAll_append]
      exact (opened_get_iff event last (applyAll before db) (replayAll before stores)).mpr
        (restated before indexed after _ _ _ _ _ _ _ _ _ rfl event last)
    · have never : ∀ indexed ∈ events, ¬ indexed.event.Opens id :=
        fun indexed member opening => opens ⟨indexed, member, opening⟩
      obtain ⟨absent, unknown⟩ := all_get_absent never db stores
        (by rw [live, PositionTable.get_new]) (by rw [replayed, PositionTable.get_new])
      rw [absent, unknown]

/-- Replay rebuilds the positions of a run of `process_event` exactly for the histories
that restate what they open. -/
theorem replay_positions_iff (fmt : Wal.Format) (events : List IndexedEvent)
    (blocks : ∀ indexed ∈ events, 1 ≤ indexed.blockNumber) (r t : Running) (stores : Stores)
    (live : r.db.positions = .new) (empty : stores.positions = .new)
    (run : runLive fmt (events.map .event) r = .ok () t) :
    t.db.positions = (replayEntries 0 (events.map .indexedEvent) stores).positions ↔
      Restated events := by
  have after (indexed : IndexedEvent) (member : indexed ∈ events) : 0 < indexed.blockNumber := by
    have positive := UInt64.le_iff_toNat_le.mp (blocks indexed member)
    exact UInt64.lt_iff_toNat_lt.mpr positive
  rw [runLive_events events run, replayEntries_events events after]
  exact all_positions_iff events live empty

/-- A position opened at price zero. -/
theorem replay_positions_iff_free :
    ∃ db opened t, PerfDb.open_ Bincode.formats .stored ⟨"data", "wal", 1024, .none⟩ .fresh =
        .ok db opened ∧
      runLive Bincode.format
        ([⟨1, 1700000000, Vector.replicate 32 0, 0, 0, .positionOpened (Vector.replicate 32 3)
          (Vector.replicate 20 1) 0 true 1000 10 0 (Vector.replicate 20 2) 100⟩].map .event)
        (opened.running db) = .ok () t ∧
      (t.db.positions = (replayEntries 0
        ([⟨1, 1700000000, Vector.replicate 32 0, 0, 0, .positionOpened (Vector.replicate 32 3)
          (Vector.replicate 20 1) 0 true 1000 10 0 (Vector.replicate 20 2) 100⟩].map
          .indexedEvent) .new).positions ↔
        Restated [⟨1, 1700000000, Vector.replicate 32 0, 0, 0, .positionOpened
          (Vector.replicate 32 3) (Vector.replicate 20 1) 0 true 1000 10 0
          (Vector.replicate 20 2) 100⟩]) := by
  obtain ⟨db, opened, run, stores, ready⟩ := PerfDb.open_blank Bincode.formats .stored
    ⟨"data", "wal", 1024, .none⟩ Disk.fresh_blank
  obtain ⟨t, live⟩ := runLive_returns Bincode.format _ ready
  refine ⟨db, opened, t, run, live,
    replay_positions_iff Bincode.format _ (by decide) _ t .new ?_ rfl live⟩
  exact congrArg Stores.positions stores

/-- One opening is enough for replay to rebuild another table: its price is lost. -/
theorem replay_loses_entryPrice :
    ∃ db opened t, PerfDb.open_ Bincode.formats .stored ⟨"data", "wal", 1024, .none⟩ .fresh =
        .ok db opened ∧
      runLive Bincode.format
        ([⟨1, 1700000000, Vector.replicate 32 0, 0, 0, .positionOpened (Vector.replicate 32 3)
          (Vector.replicate 20 1) 0 true 1000 10 50000 (Vector.replicate 20 2) 100⟩].map .event)
        (opened.running db) = .ok () t ∧
      t.db.positions ≠ (replayEntries 0
        ([⟨1, 1700000000, Vector.replicate 32 0, 0, 0, .positionOpened (Vector.replicate 32 3)
          (Vector.replicate 20 1) 0 true 1000 10 50000 (Vector.replicate 20 2) 100⟩].map
          .indexedEvent) .new).positions := by
  obtain ⟨db, opened, run, stores, ready⟩ := PerfDb.open_blank Bincode.formats .stored
    ⟨"data", "wal", 1024, .none⟩ Disk.fresh_blank
  obtain ⟨t, live⟩ := runLive_returns Bincode.format _ ready
  refine ⟨db, opened, t, run, live, fun same => ?_⟩
  have applied := congrArg Stores.positions (runLive_events _ live)
  rw [replayEntries_events _ (by decide), applied] at same
  have empty : db.positions = .new := congrArg Stores.positions stores
  have restated := (all_positions_iff _ (show db.positions = .new from empty) rfl).mp same
  exact absurd (restated [] _ [] _ _ _ _ _ _ _ _ _ rfl rfl (by simp)).1 (by decide)

end Perfdb
