import Mathlib
import Perfdb.OpenPositions

set_option autoImplicit false

namespace Perfdb

namespace TraderStatsStore

/-- The counter of open positions; a trader without stats has none. -/
def openOf (store : TraderStatsStore) (user : Address) : Nat :=
  ((store.get user).map fun s => s.openPositions.toNat).getD 0

/-- The counter of positions ever opened. -/
def totalOf (store : TraderStatsStore) (user : Address) : Nat :=
  ((store.get user).map fun s => s.totalPositions.toNat).getD 0

variable (store : TraderStatsStore) (user other : Address) (change : TraderStats → TraderStats)

/-- The stats a change starts from. -/
def current (store : TraderStatsStore) (user : Address) : TraderStats :=
  (store.get user).getD (TraderStats.zero user)

theorem current_open : (store.current user).openPositions.toNat = store.openOf user := by
  unfold current openOf
  cases store.get user <;> rfl

theorem current_total : (store.current user).totalPositions.toNat = store.totalOf user := by
  unfold current totalOf
  cases store.get user <;> rfl

theorem openOf_change : ((store.ensure user).update user change).2.openOf other =
    if user = other then (change (store.current user)).openPositions.toNat
    else store.openOf other := by
  rw [openOf, get_ensure_update]
  split <;> rfl

theorem totalOf_change : ((store.ensure user).update user change).2.totalOf other =
    if user = other then (change (store.current user)).totalPositions.toNat
    else store.totalOf other := by
  rw [totalOf, get_ensure_update]
  split <;> rfl

def openSum (store : TraderStatsStore) : Nat :=
  Table.total (fun s : TraderStats => s.openPositions.toNat) store.stats

theorem openSum_change : ((store.ensure user).update user change).2.openSum + store.openOf user =
    store.openSum + (change (store.current user)).openPositions.toNat := by
  have ensured := Table.total_insertIfNew (fun s : TraderStats => s.openPositions.toNat)
    store.stats user (TraderStats.zero user) rfl
  have moved := Table.total_modify (fun s : TraderStats => s.openPositions.toNat)
    (store.ensure user).stats user change
  simp only [Table.weightAt, ensure, Table.getElem?_insertIfNew, if_true, Option.map_some,
    Option.getD_some] at moved
  rw [ensured] at moved
  rw [← current_open]
  exact moved

end TraderStatsStore

/-- Counts the open positions of a user. -/
def ownedBy (user : Address) (h : Holding) : Nat := if h.user = user then 1 else 0

/-- The counters agree with the open positions and with how many have been opened. -/
structure Balanced (store : TraderStatsStore) (table : PositionTable) (starts : Address → Nat) :
    Prop where
  counts : ∀ user, store.openOf user = table.heldTotal (ownedBy user)
  opened : ∀ user, store.totalOf user = starts user
  within : ∀ user, table.heldTotal (ownedBy user) ≤ starts user
  sum : store.openSum = table.heldTotal fun _ => 1

namespace Balanced

variable {store : TraderStatsStore} {table later : PositionTable} {starts : Address → Nat}
  (h : Holding) (change : TraderStats → TraderStats)

theorem new : Balanced .new .new fun _ => 0 := by
  have unknown (user : Address) : TraderStatsStore.new.get user = none :=
    Std.ExtTreeMap.getElem?_empty
  refine ⟨fun user => ?_, fun user => ?_, fun user => ?_, ?_⟩
  · rw [TraderStatsStore.openOf, unknown, heldTotal_new]
    rfl
  · rw [TraderStatsStore.totalOf, unknown]
    rfl
  · rw [heldTotal_new]
  · rw [heldTotal_new]
    exact Table.total_empty _

theorem opens (balanced : Balanced store table starts)
    (grown : ∀ weight : Holding → Nat,
      later.heldTotal weight = table.heldTotal weight + weight h)
    (room : starts h.user + 1 < 2 ^ 32)
    (counted : ∀ s, (change s).openPositions = s.openPositions + 1 ∧
      (change s).totalPositions = s.totalPositions + 1) :
    Balanced ((store.ensure h.user).update h.user change).2 later
      fun user => starts user + ownedBy user h := by
  have own := balanced.counts h.user
  have total := balanced.opened h.user
  have within := balanced.within h.user
  have up : (change (store.current h.user)).openPositions.toNat = store.openOf h.user + 1 := by
    rw [(counted _).1, UInt32.toNat_add, TraderStatsStore.current_open]
    exact Nat.mod_eq_of_lt (by change store.openOf h.user + 1 < 2 ^ 32; omega)
  have upTotal : (change (store.current h.user)).totalPositions.toNat =
      store.totalOf h.user + 1 := by
    rw [(counted _).2, UInt32.toNat_add, TraderStatsStore.current_total]
    exact Nat.mod_eq_of_lt (by change store.totalOf h.user + 1 < 2 ^ 32; omega)
  refine ⟨fun user => ?_, fun user => ?_, fun user => ?_, ?_⟩
  · rw [TraderStatsStore.openOf_change, grown, up, ← balanced.counts, ownedBy]
    split
    · rename_i same
      rw [same]
    · rfl
  · rw [TraderStatsStore.totalOf_change, upTotal, ← balanced.opened, ownedBy]
    split
    · rename_i same
      rw [same]
    · rfl
  · rw [grown]
    exact Nat.add_le_add_right (balanced.within user) _
  · have moved := store.openSum_change h.user change
    rw [up, balanced.sum] at moved
    rw [grown]
    omega

theorem finishes (balanced : Balanced store table starts)
    (shrunk : ∀ weight : Holding → Nat,
      later.heldTotal weight + weight h = table.heldTotal weight)
    (counted : ∀ s, (change s).openPositions =
        (if s.openPositions = 0 then 0 else s.openPositions - 1) ∧
      (change s).totalPositions = s.totalPositions) :
    Balanced ((store.ensure h.user).update h.user change).2 later starts := by
  have own := balanced.counts h.user
  have mine : later.heldTotal (ownedBy h.user) + 1 = table.heldTotal (ownedBy h.user) := by
    rw [← shrunk (ownedBy h.user), ownedBy, if_pos rfl]
  have down : (change (store.current h.user)).openPositions.toNat + 1 = store.openOf h.user := by
    have current := store.current_open h.user
    have positive : (store.current h.user).openPositions ≠ 0 := by
      intro zero
      rw [zero] at current
      change 0 = store.openOf h.user at current
      omega
    have above : 1 ≤ (store.current h.user).openPositions := by
      rw [UInt32.le_iff_toNat_le]
      change 1 ≤ (store.current h.user).openPositions.toNat
      omega
    rw [(counted _).1, if_neg positive, UInt32.toNat_sub_of_le _ _ above]
    change (store.current h.user).openPositions.toNat - 1 + 1 = _
    omega
  refine ⟨fun user => ?_, fun user => ?_, fun user => ?_, ?_⟩
  · rw [TraderStatsStore.openOf_change]
    split
    · rename_i same
      rw [← same]
      omega
    · rename_i other
      rw [balanced.counts, ← shrunk (ownedBy user), ownedBy, if_neg other]
      rfl
  · rw [TraderStatsStore.totalOf_change, (counted _).2, TraderStatsStore.current_total,
      ← balanced.opened]
    split
    · rename_i same
      rw [same]
    · rfl
  · have before := balanced.within user
    rw [← shrunk (ownedBy user)] at before
    omega
  · have moved := store.openSum_change h.user change
    have less := shrunk fun _ => 1
    have sum := balanced.sum
    omega

theorem keeps (balanced : Balanced store table starts)
    (same : ∀ user, later.heldTotal (ownedBy user) = table.heldTotal (ownedBy user))
    (all : (later.heldTotal fun _ => 1) = table.heldTotal fun _ => 1) :
    Balanced store later starts :=
  ⟨fun user => (balanced.counts user).trans (same user).symm, balanced.opened,
    fun user => (same user).symm ▸ balanced.within user, balanced.sum.trans all.symm⟩

theorem changes (balanced : Balanced store table starts) (user : Address)
    (counted : ∀ s, (change s).openPositions = s.openPositions ∧
      (change s).totalPositions = s.totalPositions) :
    Balanced ((store.ensure user).update user change).2 table starts := by
  refine ⟨fun other => ?_, fun other => ?_, balanced.within, ?_⟩
  · rw [TraderStatsStore.openOf_change, (counted _).1, TraderStatsStore.current_open,
      ← balanced.counts]
    split
    · rename_i same
      rw [same]
    · rfl
  · rw [TraderStatsStore.totalOf_change, (counted _).2, TraderStatsStore.current_total,
      ← balanced.opened]
    split
    · rename_i same
      rw [same]
    · rfl
  · have moved := store.openSum_change user change
    rw [(counted _).1, TraderStatsStore.current_open] at moved
    have sum := balanced.sum
    omega

end Balanced

namespace Event

/-- The event opens a position of a user. -/
def opensFor (user : Address) : Event → Bool
  | .positionOpened _ owner _ _ _ _ _ _ _ => owner = user
  | _ => false

/-- The event closes, in part or in full, or liquidates a position of a user. -/
def EndsFor (id : Hash) (user : Address) : Event → Prop
  | .positionClosed positionId owner _ _ _ _ _ | .liquidation positionId owner _ _ _ _ =>
      positionId = id ∧ owner = user
  | _ => False

end Event

/-- After `front` the event opens no id for a second time, and closes or liquidates an
open position only, for its owner. -/
structure Event.OwnedAfter (front : List IndexedEvent) (event : Event) : Prop where
  once : ∀ id, event.Opens id → ∀ earlier ∈ front, ¬ earlier.event.Opens id
  owner : ∀ id user, event.EndsFor id user → ∃ h, holding id front = some h ∧ h.user = user

def Owned (events : List IndexedEvent) : Prop :=
  ∀ front indexed, front ++ [indexed] <+: events → indexed.event.OwnedAfter front

section Positions

variable {indexed : IndexedEvent} {table : PositionTable}

/-- An event that opens an unknown id, or none, keeps the indexes. -/
theorem PositionTable.Mirrored.event (mirrored : table.Mirrored)
    (fresh : ∀ id, indexed.event.Opens id → table.get id = none) :
    (indexed.onPositions table).Mirrored := by
  obtain ⟨blockNumber, blockTimestamp, txHash, txIndex, logIndex, event⟩ := indexed
  cases event with
  | positionOpened positionId =>
      refine mirrored.insert fun old found => ?_
      rw [IndexedEvent.opened, fresh positionId rfl] at found
      contradiction
  | positionClosed positionId user marketId closedSizeUsd exitPrice realizedPnl isFullClose =>
      refine mirrored.update positionId (fun p => ?_) fun p => ?_ <;> cases isFullClose <;> rfl
  | positionModified positionId =>
      exact mirrored.update positionId (fun _ => rfl) fun _ => rfl
  | liquidation positionId => exact mirrored.update positionId (fun _ => rfl) fun _ => rfl
  | _ => exact mirrored

theorem onPositions_known {id : Hash} (known : ((indexed.onPositions table).get id).isSome) :
    (table.get id).isSome ∨ indexed.event.Opens id := by
  obtain ⟨blockNumber, blockTimestamp, txHash, txIndex, logIndex, event⟩ := indexed
  cases event with
  | positionOpened positionId =>
      simp only [IndexedEvent.onPositions, PositionTable.get_insert] at known
      split at known
      · rename_i same
        exact Or.inr same
      · exact Or.inl known
  | positionClosed | positionModified | liquidation =>
      simp only [IndexedEvent.onPositions, PositionTable.get_update] at known
      split at known
      · rename_i same
        subst same
        exact Or.inl (by simpa using known)
      · exact Or.inl known
  | _ => exact Or.inl known

end Positions

/-- What a run of events keeps between the positions and the stats. -/
structure Tallied (front : List IndexedEvent) (stores : Stores) : Prop where
  indexes : stores.positions.Mirrored
  holds : stores.positions.Holds front
  known : ∀ id, (stores.positions.get id).isSome → ∃ earlier ∈ front, earlier.event.Opens id
  balanced : Balanced stores.traderStats stores.positions fun user =>
    front.countP fun indexed => indexed.event.opensFor user

theorem Tallied.event {events front : List IndexedEvent} {indexed : IndexedEvent} {db : PerfDb}
    (owned : Owned events) (few : events.length < 2 ^ 32) (inside : front ++ [indexed] <+: events)
    (tallied : Tallied front db.toStores) :
    Tallied (front ++ [indexed]) (db.applyEvent indexed).toStores := by
  obtain ⟨indexes, holds, known, balanced⟩ := tallied
  have fresh (id : Hash) (opens : indexed.event.Opens id) : db.positions.get id = none := by
    refine Option.not_isSome_iff_eq_none.mp fun present => ?_
    obtain ⟨earlier, member, before⟩ := known id present
    exact (owned front indexed inside).once id opens earlier member before
  have room : front.length + 1 < 2 ^ 32 := by
    have shorter := inside.length_le
    rw [List.length_append, List.length_singleton] at shorter
    omega
  have positions := applyEvent_positions indexed db
  have stats := (applyEvent_effects indexed db).traderStats
  rw [onTraderStats_eq] at stats
  refine ⟨positions ▸ indexes.event fresh, positions ▸ holds.event indexed, fun id present => ?_,
    ?_⟩
  · rw [positions] at present
    rcases onPositions_known present with before | now
    · obtain ⟨earlier, member, opens⟩ := known id before
      exact ⟨earlier, List.mem_append_left _ member, opens⟩
    · exact ⟨indexed, by simp, now⟩
  · rw [positions, stats]
    have moved (id : Hash) (about : indexed.event.subject = some id) (weight : Holding → Nat) :=
      heldTotal_event weight holds about
    have owner := (owned front indexed inside).owner
    have starts : (fun user => (front ++ [indexed]).countP fun other => other.event.opensFor user) =
        fun user => (front.countP fun other => other.event.opensFor user) +
          if indexed.event.opensFor user then 1 else 0 := by
      funext user
      rw [List.countP_append, List.countP_singleton]
    rw [starts]
    obtain ⟨blockNumber, blockTimestamp, txHash, txIndex, logIndex, event⟩ := indexed
    cases event with
    | positionOpened positionId user marketId isLong sizeUsd leverage entryPrice collateralToken
        collateralAmount =>
        have absent : holding positionId front = none := by
          rw [← holds positionId, fresh positionId rfl]
          rfl
        have opened := balanced.opens ⟨user, marketId, isLong, sizeUsd⟩ (fun s => { s with
          totalPositions := s.totalPositions + 1
          openPositions := s.openPositions + 1 }) (fun weight => by
            have step := moved positionId rfl weight
            simpa [absent, weigh, Holding.step] using step)
          (Nat.lt_of_le_of_lt (Nat.succ_le_succ List.countP_le_length) room)
          fun s => ⟨rfl, rfl⟩
        have own (other : Address) : (if Event.opensFor other (.positionOpened positionId user
            marketId isLong sizeUsd leverage entryPrice collateralToken collateralAmount) then 1
            else 0) = ownedBy other ⟨user, marketId, isLong, sizeUsd⟩ := by
          simp [ownedBy, Event.opensFor]
        simp only [own]
        exact opened
    | positionClosed positionId user marketId closedSizeUsd exitPrice realizedPnl isFullClose =>
        obtain ⟨h, held, rfl⟩ := owner positionId user ⟨rfl, rfl⟩
        cases isFullClose with
        | true =>
            exact balanced.finishes h _ (fun weight => by
              have step := moved positionId rfl weight
              simpa [held, weigh, Holding.step] using step) fun s => ⟨rfl, rfl⟩
        | false =>
            have changed := balanced.changes (fun s => s.addTrade closedSizeUsd realizedPnl 0
              (decide (0 < realizedPnl)) false blockTimestamp) h.user fun s => ⟨rfl, rfl⟩
            refine changed.keeps (fun user => ?_) ?_
            · have step := moved positionId rfl (ownedBy user)
              simpa [held, weigh, Holding.step, ownedBy] using step
            · have step := moved positionId rfl fun _ => 1
              simpa [held, weigh, Holding.step] using step
    | positionModified positionId =>
        refine balanced.keeps (fun user => ?_) ?_
        · have step := moved positionId rfl (ownedBy user)
          cases held : holding positionId front <;>
            simpa [held, weigh, Holding.step, ownedBy] using step
        · have step := moved positionId rfl fun _ => 1
          cases held : holding positionId front <;>
            simpa [held, weigh, Holding.step] using step
    | liquidation positionId user =>
        obtain ⟨h, held, rfl⟩ := owner positionId user ⟨rfl, rfl⟩
        exact balanced.finishes h _ (fun weight => by
          have step := moved positionId rfl weight
          simpa [held, weigh, Holding.step] using step) fun s => ⟨rfl, rfl⟩
    | _ => exact balanced

theorem openCount_eq (table : PositionTable) : table.openCount = table.heldTotal fun _ => 1 := by
  have counted := Table.length_filter_all table.positions .stored fun p => p.status = .open_
  have weights : (fun p : Position => if p.status = .open_ then 1 else 0) =
      fun p => weigh (fun _ => 1) p.holding := by
    funext p
    by_cases isOpen : p.status = .open_ <;> simp [Position.holding, weigh, isOpen]
  rw [PositionTable.heldTotal, ← weights, ← counted, Table.all, List.filter_map, List.length_map]
  rfl

theorem openByUser_length {table : PositionTable} (indexes : table.Mirrored) (order : Iteration)
    (user : Address) : (table.openByUser order user).length = table.heldTotal (ownedBy user) := by
  have found := (indexes.exact.users order user).filter fun p => decide (p.status = .open_)
  have counted := Table.length_filter_all table.positions order fun p =>
    p.status = .open_ ∧ p.userAddress = user
  have weights : (fun p : Position => if p.status = .open_ ∧ p.userAddress = user then 1 else 0) =
      fun p => weigh (ownedBy user) p.holding := by
    funext p
    by_cases isOpen : p.status = .open_ <;> simp [Position.holding, weigh, ownedBy, isOpen]
  rw [PositionTable.heldTotal, ← weights, ← counted, PositionTable.openByUser, found.length_eq,
    List.filter_filter]
  simp only [PositionTable.all, Bool.decide_and]

/-- The counters of every trader and their sum agree with the open positions. -/
theorem open_counters_agree (fmt : Wal.Format) (events : List IndexedEvent)
    (owned : Owned events) (few : events.length < 2 ^ 32) (r t : Running)
    (empty : r.db.toStores = .new) (run : runLive fmt (events.map .event) r = .ok () t)
    (order : Iteration) :
    (∀ user s, t.db.traderStats.get user = some s →
      s.openPositions.toNat = (t.db.positions.openByUser order user).length ∧
      s.totalPositions.toNat = events.countP fun indexed => indexed.event.opensFor user) ∧
    ((t.db.traderStats.all order).map fun s => s.openPositions.toNat).sum =
      t.db.positions.openCount := by
  have tallied : Tallied events (applyAll events r.db).toStores := by
    refine foldl_holds (fun front (db : PerfDb) => Tallied front db.toStores) ?_
      fun front indexed db inside before => before.event owned few inside
    rw [empty]
    refine ⟨.new, PositionTable.holds_new, fun id present => ?_, .new⟩
    change (PositionTable.new.get id).isSome at present
    rw [PositionTable.get_new] at present
    contradiction
  rw [← runLive_events events run] at tallied
  obtain ⟨indexes, _, _, balanced⟩ := tallied
  refine ⟨fun user s found => ⟨?_, ?_⟩, ?_⟩
  · rw [openByUser_length indexes, ← balanced.counts, TraderStatsStore.openOf, found]
    rfl
  · rw [← balanced.opened, TraderStatsStore.totalOf, found]
    rfl
  · rw [openCount_eq, ← balanced.sum]
    exact (Table.total_eq_sum_all _ _ order).symm

/-- A position that is opened, closed in part, and liquidated. -/
theorem open_counters_agree_liquidation :
    ∃ db opened t, PerfDb.open_ Bincode.formats .stored ⟨"data", "wal", 1024, .none⟩ .fresh =
        .ok db opened ∧
      let user := Vector.replicate 20 1
      let id := Vector.replicate 32 7
      let events : List IndexedEvent :=
        [⟨5, 1700000000, Vector.replicate 32 0, 0, 0,
            .positionOpened id user 0 true 100 10 1 (Vector.replicate 20 2) 10⟩,
          ⟨6, 1700000012, Vector.replicate 32 0, 0, 0, .positionClosed id user 0 40 1 0 false⟩,
          ⟨7, 1700000024, Vector.replicate 32 0, 0, 0,
            .liquidation id user 0 1 2 (Vector.replicate 20 4)⟩]
      runLive Bincode.format (events.map .event) (opened.running db) = .ok () t ∧
      (∀ user s, t.db.traderStats.get user = some s →
        s.openPositions.toNat = (t.db.positions.openByUser .stored user).length ∧
        s.totalPositions.toNat = events.countP fun indexed => indexed.event.opensFor user) ∧
      ((t.db.traderStats.all .stored).map fun s => s.openPositions.toNat).sum =
        t.db.positions.openCount := by
  obtain ⟨db, opened, run, stores, ready⟩ := PerfDb.open_blank Bincode.formats .stored
    ⟨"data", "wal", 1024, .none⟩ Disk.fresh_blank
  obtain ⟨t, live⟩ := runLive_returns Bincode.format _ ready
  refine ⟨db, opened, t, run, live, open_counters_agree Bincode.format _ ?_ (by decide) _ t stores
    live .stored⟩
  refine forall_fronts (fun front (indexed : IndexedEvent) => indexed.event.OwnedAfter front)
    fun i inside => ?_
  match i with
  | 0 => exact ⟨by simp, by simp [Event.EndsFor]⟩
  | 1 | 2 => exact ⟨by simp [Event.Opens], by simp [Event.EndsFor, holding, Holding.step]⟩

end Perfdb
