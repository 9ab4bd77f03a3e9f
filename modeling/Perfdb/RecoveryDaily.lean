import Mathlib
import Perfdb.DailyBooks
import Perfdb.RecoveryEvents

set_option autoImplicit false

namespace Perfdb

def IndexedEvent.closeDate (trader : Address) (indexed : IndexedEvent) : Option UInt32 :=
  match indexed.event with
  | .positionClosed _ user _ _ _ _ _ =>
      if user = trader then some (timestampToDate indexed.blockTimestamp) else none
  | _ => none

def activeDates (trader : Address) (events : List IndexedEvent) : Finset UInt32 :=
  (events.filterMap fun indexed => indexed.closeDate trader).toFinset

/-- The daily stats are those of the active dates, of traders with lifetime stats. -/
structure Stores.Daily (stores : Stores) (events : List IndexedEvent) : Prop where
  active : ∀ trader date,
    (stores.dailyStats.getTraderDaily trader date).isSome ↔ date ∈ activeDates trader events
  dated : ∀ trader date s, stores.dailyStats.getTraderDaily trader date = some s → s.date = date
  known : ∀ trader date, date ∈ activeDates trader events →
    (stores.traderStats.get trader).isSome

theorem Stores.daily_new : Stores.new.Daily [] := by
  have empty (trader : Address) (date : UInt32) :
      Stores.new.dailyStats.getTraderDaily trader date = none := Std.ExtTreeMap.getElem?_empty
  refine ⟨fun trader date => ?_, fun trader date s found => ?_, fun trader date member => ?_⟩
  · rw [empty]
    simp [activeDates]
  · rw [empty] at found
    cases found
  · simp [activeDates] at member

theorem getTraderDaily_accumulateTrade (store : DailyStatsStore) (user trader : Address)
    (day date : UInt32) (volume pnl fee : FixedI128) :
    ∃ s, (store.accumulateTrade user day volume pnl fee).getTraderDaily trader date =
        (if user = trader ∧ day = date then some s else store.getTraderDaily trader date) ∧
      s.date = ((store.getTraderDaily user day).map DailyStats.date).getD day := by
  simp only [DailyStatsStore.accumulateTrade, DailyStatsStore.getTraderDaily,
    Table.getElem?_alter, Prod.mk.injEq]
  cases store.traderDaily[(user, day)]? with
  | none => exact ⟨_, rfl, rfl⟩
  | some s => exact ⟨_, rfl, rfl⟩

theorem mem_activeDates_append (trader : Address) (date : UInt32) (events : List IndexedEvent)
    (indexed : IndexedEvent) : date ∈ activeDates trader (events ++ [indexed]) ↔
      date ∈ activeDates trader events ∨ indexed.closeDate trader = some date := by
  simp [activeDates, List.filterMap_append]

theorem onTraderStats_known (indexed : IndexedEvent) (store : TraderStatsStore)
    (trader : Address) (known : (store.get trader).isSome ∨ (indexed.closeDate trader).isSome) :
    ((indexed.onTraderStats store).get trader).isSome := by
  rw [onTraderStats_eq]
  cases changes : indexed.statsChange with
  | none =>
      refine known.resolve_right fun closes => ?_
      obtain ⟨blockNumber, blockTimestamp, txHash, txIndex, logIndex, event⟩ := indexed
      cases event <;> simp [IndexedEvent.closeDate, IndexedEvent.statsChange] at closes changes
  | some named =>
      obtain ⟨user, change⟩ := named
      simp only
      rw [TraderStatsStore.get_ensure_update]
      split
      · rfl
      · rename_i other
        refine known.resolve_right fun closes => ?_
        obtain ⟨blockNumber, blockTimestamp, txHash, txIndex, logIndex, event⟩ := indexed
        cases event with
        | positionClosed =>
            obtain ⟨rfl, _⟩ := Prod.mk.inj (Option.some.inj changes)
            simp [IndexedEvent.closeDate, other] at closes
        | _ => simp [IndexedEvent.closeDate] at closes

theorem Stores.Daily.event {stores later : Stores} {events : List IndexedEvent}
    (daily : stores.Daily events) {indexed : IndexedEvent}
    (days : later.dailyStats = indexed.onDailyStats stores.dailyStats)
    (stats : later.traderStats = indexed.onTraderStats stores.traderStats) :
    later.Daily (events ++ [indexed]) := by
  obtain ⟨active, dated, known⟩ := daily
  have kept (trader : Address) (date : UInt32)
      (member : date ∈ activeDates trader (events ++ [indexed])) :
      (later.traderStats.get trader).isSome := by
    rw [stats]
    refine onTraderStats_known indexed _ trader ?_
    rcases (mem_activeDates_append trader date events indexed).mp member with before | now
    · exact Or.inl (known trader date before)
    · exact Or.inr (Option.isSome_of_eq_some now)
  refine ⟨fun trader date => ?_, fun trader date s found => ?_, kept⟩
  · rw [mem_activeDates_append, ← active, days]
    obtain ⟨blockNumber, blockTimestamp, txHash, txIndex, logIndex, event⟩ := indexed
    cases event with
    | positionClosed positionId user marketId closedSizeUsd exitPrice realizedPnl isFullClose =>
        obtain ⟨s, found, _⟩ := getTraderDaily_accumulateTrade stores.dailyStats user trader
          (timestampToDate blockTimestamp) date closedSizeUsd realizedPnl 0
        change ((stores.dailyStats.accumulateTrade _ _ _ _ _).getTraderDaily _ _).isSome ↔ _
        rw [found]
        by_cases mine : user = trader <;> by_cases today : timestampToDate blockTimestamp = date <;>
          simp [mine, today, IndexedEvent.closeDate]
    | _ => simp [IndexedEvent.onDailyStats, IndexedEvent.closeDate]
  · rw [days] at found
    obtain ⟨blockNumber, blockTimestamp, txHash, txIndex, logIndex, event⟩ := indexed
    cases event with
    | positionClosed positionId user marketId closedSizeUsd exitPrice realizedPnl isFullClose =>
        obtain ⟨day, now, own⟩ := getTraderDaily_accumulateTrade stores.dailyStats user trader
          (timestampToDate blockTimestamp) date closedSizeUsd realizedPnl 0
        have here := now.symm.trans found
        split at here
        · rename_i same
          obtain ⟨rfl, rfl⟩ := same
          obtain rfl := Option.some.inj here
          rw [own]
          cases before : stores.dailyStats.getTraderDaily user (timestampToDate blockTimestamp) with
          | none => rfl
          | some old => exact dated _ _ _ before
        · exact dated trader date s here
    | _ => exact dated trader date s found

section Export

variable {stores : Stores} {events : List IndexedEvent} (order : Iteration)

/-- A trader's entries, in the order they are listed in. -/
def DailyStatsStore.entriesOf (order : Iteration) (store : DailyStatsStore) (trader : Address) :
    List DailyStats :=
  ((order.arrange store.traderDaily.toList).filter fun item => item.1.1 = trader).map Prod.snd

theorem DailyStatsStore.mem_entriesOf (store : DailyStatsStore) (trader : Address)
    (s : DailyStats) : s ∈ store.entriesOf order trader ↔
      ∃ date, store.getTraderDaily trader date = some s := by
  simp only [entriesOf, List.mem_map, List.mem_filter, decide_eq_true_eq]
  constructor
  · rintro ⟨⟨⟨user, date⟩, value⟩, ⟨inside, rfl⟩, rfl⟩
    exact ⟨date, (Table.mem_arrange_toList order _ _ _).mp inside⟩
  · rintro ⟨date, found⟩
    exact ⟨((trader, date), s), ⟨(Table.mem_arrange_toList order _ _ _).mpr found, rfl⟩, rfl⟩

theorem DailyStatsStore.mem_history (store : DailyStatsStore) (trader : Address) (limit : Nat)
    {s : DailyStats} (member : s ∈ store.traderDailyHistory order trader limit) :
    ∃ date, store.getTraderDaily trader date = some s := by
  have inside : s ∈ (store.entriesOf order trader).insertionSort fun a b => b.date ≤ a.date :=
    List.mem_of_mem_take member
  exact (store.mem_entriesOf order trader s).mp ((List.mem_insertionSort _).mp inside)

theorem Stores.Daily.entriesOf_length (daily : stores.Daily events) (trader : Address) :
    (stores.dailyStats.entriesOf order trader).length = (activeDates trader events).card := by
  have nodup : ((stores.dailyStats.entriesOf order trader).map DailyStats.date).Nodup := by
    rw [DailyStatsStore.entriesOf, List.map_map]
    have listed : (order.arrange stores.dailyStats.traderDaily.toList).Nodup :=
      (order.perm _).nodup_iff.mpr (Table.nodup_toList _)
    refine (listed.filter _).map_on ?_
    rintro ⟨⟨user, date⟩, s⟩ one ⟨⟨user', date'⟩, s'⟩ other same
    simp only [List.mem_filter, decide_eq_true_eq, Table.mem_arrange_toList] at one other
    obtain ⟨found, rfl⟩ := one
    obtain ⟨found', rfl⟩ := other
    obtain rfl := daily.dated _ _ _ found
    obtain rfl := daily.dated _ _ _ found'
    have day : s.date = s'.date := same
    rw [day] at found
    obtain rfl := Option.some.inj (found.symm.trans found')
    rfl
  rw [← List.length_map DailyStats.date, ← List.toFinset_card_of_nodup nodup]
  congr 1
  ext date
  rw [List.mem_toFinset, List.mem_map, ← daily.active trader date]
  constructor
  · rintro ⟨s, member, rfl⟩
    obtain ⟨date, found⟩ := (stores.dailyStats.mem_entriesOf order trader s).mp member
    rw [daily.dated _ _ _ found, found]
    rfl
  · intro present
    obtain ⟨s, found⟩ := Option.isSome_iff_exists.mp present
    exact ⟨s, (stores.dailyStats.mem_entriesOf order trader s).mpr ⟨date, found⟩,
      daily.dated _ _ _ found⟩

/-- A history that reaches back far enough has every date. -/
theorem Stores.Daily.mem_history (daily : stores.Daily events) {trader : Address} {limit : Nat}
    (few : (activeDates trader events).card ≤ limit) {date : UInt32} {s : DailyStats}
    (found : stores.dailyStats.getTraderDaily trader date = some s) :
    s ∈ stores.dailyStats.traderDailyHistory order trader limit := by
  change s ∈ ((stores.dailyStats.entriesOf order trader).insertionSort _).take limit
  rw [List.take_of_length_le]
  · exact (List.mem_insertionSort _).mpr
      ((stores.dailyStats.mem_entriesOf order trader s).mpr ⟨date, found⟩)
  · rw [List.length_insertionSort, daily.entriesOf_length order trader]
    exact few

def Stores.exported (order : Iteration) (stores : Stores) :
    List ((Address × UInt32) × DailyStats) :=
  (stores.stateSnapshot order).dailyStats.map fun entry =>
    ((entry.address, entry.stats.date), entry.stats)

theorem restore_daily (stores : Stores) :
    (restoreSnapshot (stores.stateSnapshot order) .new).dailyStats.traderDaily =
      (stores.exported order).foldl (fun table item => table.insert item.1 item.2) ∅ := by
  rw [Stores.exported, List.foldl_map]
  exact (List.foldl_hom DailyStatsStore.traderDaily fun store entry => rfl).symm

theorem mem_exported (trader : Address) (date : UInt32) (s : DailyStats) :
    ((trader, date), s) ∈ stores.exported order ↔
      (∃ ts ∈ stores.traderStats.all order, ts.address = trader) ∧ s.date = date ∧
        s ∈ stores.dailyStats.traderDailyHistory order trader 1000 := by
  simp only [Stores.exported, Stores.stateSnapshot, List.mem_map, List.mem_flatMap, Prod.mk.injEq]
  constructor
  · rintro ⟨_, ⟨ts, listed, ds, inside, rfl⟩, ⟨rfl, rfl⟩, rfl⟩
    exact ⟨⟨ts, listed, rfl⟩, rfl, inside⟩
  · rintro ⟨⟨ts, listed, rfl⟩, rfl, inside⟩
    exact ⟨⟨ts.address, s⟩, ⟨ts, listed, s, inside, rfl⟩, ⟨rfl, rfl⟩, rfl⟩

theorem Stores.Daily.listed (daily : stores.Daily events) (keyed : stores.Keyed)
    {trader : Address} {date : UInt32} (active : date ∈ activeDates trader events) :
    ∃ ts ∈ stores.traderStats.all order, ts.address = trader := by
  obtain ⟨ts, found⟩ := Option.isSome_iff_exists.mp (daily.known trader date active)
  refine ⟨ts, List.mem_map.mpr ⟨(trader, ts), ?_, rfl⟩, keyed.traderStats trader ts found⟩
  exact (Table.mem_arrange_toList order _ _ _).mpr found

/-- A snapshot brings every trader's daily stats back when no trader has been active on more
dates than it exports. -/
theorem Stores.Daily.restores (daily : stores.Daily events) (keyed : stores.Keyed)
    (few : ∀ trader, (activeDates trader events).card ≤ 1000) :
    (restoreSnapshot (stores.stateSnapshot order) .new).dailyStats.traderDaily =
      stores.dailyStats.traderDaily := by
  rw [restore_daily]
  apply Std.ExtTreeMap.ext_getElem?
  rintro ⟨trader, date⟩
  cases found : stores.dailyStats.traderDaily[(trader, date)]? with
  | some s =>
      have active := (daily.active trader date).mp (Option.isSome_of_eq_some found)
      refine Table.foldl_insert_of_mem _ _ (fun other inside => ?_) ?_
      · obtain ⟨_, rfl, member⟩ := (mem_exported order _ _ _).mp inside
        obtain ⟨day, there⟩ := stores.dailyStats.mem_history order trader 1000 member
        obtain rfl := daily.dated _ _ _ there
        exact Option.some.inj (there.symm.trans found)
      · exact (mem_exported order _ _ _).mpr ⟨daily.listed order keyed active,
          daily.dated _ _ _ found, daily.mem_history order (few trader) found⟩
  | none =>
      rw [Table.foldl_insert_of_not_mem]
      · exact Std.ExtTreeMap.getElem?_empty
      · intro other inside
        obtain ⟨_, rfl, member⟩ := (mem_exported order _ _ _).mp inside
        obtain ⟨day, there⟩ := stores.dailyStats.mem_history order trader 1000 member
        obtain rfl := daily.dated _ _ _ there
        exact absurd (there.symm.trans found) (Option.some_ne_none _)

theorem Stores.Daily.loses (daily : stores.Daily events) {trader : Address}
    (many : 1000 < (activeDates trader events).card) :
    (restoreSnapshot (stores.stateSnapshot order) .new).dailyStats.traderDaily ≠
      stores.dailyStats.traderDaily := by
  intro same
  let history := stores.dailyStats.traderDailyHistory order trader 1000
  have kept : activeDates trader events ⊆ (history.map DailyStats.date).toFinset := by
    intro date active
    obtain ⟨s, found⟩ := Option.isSome_iff_exists.mp ((daily.active trader date).mpr active)
    rw [DailyStatsStore.getTraderDaily, ← same, restore_daily] at found
    by_contra absent
    have missing (other : DailyStats) : ((trader, date), other) ∉ stores.exported order := by
      intro inside
      obtain ⟨_, rfl, member⟩ := (mem_exported order _ _ _).mp inside
      exact absent (List.mem_toFinset.mpr (List.mem_map_of_mem member))
    rw [Table.foldl_insert_of_not_mem _ _ _ missing, Std.ExtTreeMap.getElem?_empty] at found
    cases found
  have few : history.length ≤ 1000 := List.length_take_le _ _
  have card := (Finset.card_le_card kept).trans (List.toFinset_card_le _)
  rw [List.length_map] at card
  omega

end Export

/-- A snapshot that exports every date of every trader. -/
def Action.ExportsAll (front : List Action) : Action → Prop
  | .snapshot _ => ∀ trader, (activeDates trader (front.filterMap Action.processed)).card ≤ 1000
  | .event _ | .tick _ => True

section Step

variable {actions front : List Action} {action : Action} {c : Course}

theorem Course.daily_step (daily : c.db.toStores.Daily (front.filterMap Action.processed)) :
    (c.step action).db.toStores.Daily ((front ++ [action]).filterMap Action.processed) := by
  rw [List.filterMap_append]
  cases action with
  | event indexed =>
      exact daily.event (applyEvent_dailyStats indexed c.db)
        (applyEvent_effects indexed c.db).traderStats
  | tick sample =>
      rw [show [Action.tick sample].filterMap Action.processed = [] from rfl, List.append_nil]
      exact ⟨daily.active, daily.dated, daily.known⟩
  | snapshot order =>
      rw [show [Action.snapshot order].filterMap Action.processed = [] from rfl, List.append_nil]
      exact daily

theorem course_daily {db : PerfDb} (empty : db.toStores = .new) (actions : List Action) :
    (course db actions).db.toStores.Daily (actions.filterMap Action.processed) := by
  refine foldl_holds (fun front (c : Course) =>
    c.db.toStores.Daily (front.filterMap Action.processed)) ?_
    fun front action c inside daily => Course.daily_step daily
  change db.toStores.Daily []
  rw [empty]
  exact Stores.daily_new

/-- Right after a snapshot the daily stats are back when it exports all of them. -/
theorem Course.Dated.exports_iff (dated : c.Dated front)
    (daily : c.db.toStores.Daily (front.filterMap Action.processed)) (order : Iteration) :
    (c.step (.snapshot order)).reopened.dailyStats = (c.step (.snapshot order)).db.dailyStats ↔
      (Action.snapshot order).ExportsAll front := by
  rw [reopened_snapshot dated]
  constructor
  · intro whole trader
    by_contra many
    exact daily.loses order (Nat.lt_of_not_le many) (congrArg DailyStatsStore.traderDaily whole)
  · exact fun few => congrArg DailyStatsStore.mk (daily.restores order dated.keyed few)

/-- What would be reopened stays what is live, unless a snapshot leaves dates out. -/
theorem Course.Compacts.daily (compacts : c.Compacts actions front)
    (daily : c.db.toStores.Daily (front.filterMap Action.processed))
    (inside : front ++ [action] <+: actions)
    (same : c.reopened.dailyStats = c.db.dailyStats) :
    (c.step action).reopened.dailyStats = (c.step action).db.dailyStats ↔
      action.ExportsAll front := by
  cases action with
  | event indexed =>
      obtain ⟨later, whole⟩ := inside
      have above : snapBlockOf c.latest < indexed.blockNumber := by
        refine compacts.ahead (.event indexed :: later) ?_ _ List.mem_cons_self
        rw [← whole, List.append_assoc, List.singleton_append]
      refine iff_of_true ?_ trivial
      rw [reopened_event, replayWalEntry_event above, replayEvent_dailyStats, same]
      exact (applyEvent_dailyStats indexed c.db).symm
  | tick sample =>
      refine iff_of_true ?_ trivial
      rw [reopened_tick]
      exact same
  | snapshot order => exact compacts.dated.exports_iff daily order

end Step

/-- Whoever opens the database again finds every trader's daily stats. -/
def Running.DailyStatsRecover (fmts : Formats) (r : Running) : Prop :=
  ∀ order config, ∃ db later, PerfDb.open_ fmts order config r.close = .ok db later ∧
    ∀ trader date,
      db.dailyStats.getTraderDaily trader date = r.db.dailyStats.getTraderDaily trader date

theorem dailyStatsRecover_iff {fmts : Formats} {c : Course} {r : Running}
    (follows : Follows fmts c r) (inverse : fmts.snapshot.RoundTrips) :
    r.DailyStatsRecover fmts ↔ c.reopened.dailyStats = c.db.dailyStats := by
  have live : r.db.dailyStats = c.db.dailyStats := congrArg Stores.dailyStats follows.stores
  constructor
  · intro recover
    obtain ⟨db, later, opened, same⟩ := recover .stored ⟨"", "", 0, .none⟩
    obtain ⟨db', later', again, stores⟩ := follows.reopen inverse .stored ⟨"", "", 0, .none⟩
    obtain ⟨rfl, rfl⟩ := EStateM.Result.ok.inj (opened.symm.trans again)
    rw [← stores, ← live]
    exact congrArg DailyStatsStore.mk (Std.ExtTreeMap.ext_getElem? fun key => same key.1 key.2)
  · intro same order config
    obtain ⟨db, later, opened, stores⟩ := follows.reopen inverse order config
    refine ⟨db, later, opened, fun trader date => ?_⟩
    rw [live, ← same, ← stores]

/-- After every part of a run with snapshots between blocks the daily stats recover exactly
when no snapshot finds a trader active on more than a thousand dates. -/
theorem daily_stats_recover_iff (fmts : Formats) (walInverse : fmts.wal.RoundTrips)
    (inverse : fmts.snapshot.RoundTrips) (actions : List Action)
    (valid : ∀ action ∈ actions, action.Valid fmts.wal) (ordered : Ordered actions)
    (positive : ∀ block ∈ actions.filterMap Action.block, 1 ≤ block)
    (boundaries : AtBoundaries actions) (order : Iteration) (config : PerfDbConfig)
    (disk opened : Disk) (blank : disk.Blank) (db : PerfDb)
    (run : PerfDb.open_ fmts order config disk = .ok db opened) :
    (∀ front r, front <+: actions → runActions fmts front (opened.running db) = .ok () r →
      r.DailyStatsRecover fmts) ↔
    ∀ front action, front ++ [action] <+: actions → action.ExportsAll front := by
  obtain ⟨db', opened', again, empty, follows⟩ := follows_blank fmts order config blank
  obtain ⟨rfl, rfl⟩ := EStateM.Result.ok.inj (again.symm.trans run)
  have steps := foldl_good_iff
    (fun front (c : Course) => c.Compacts actions front ∧
      c.db.toStores.Daily (front.filterMap Action.processed) ∧
      c.reopened.dailyStats = c.db.dailyStats)
    (fun c => c.reopened.dailyStats = c.db.dailyStats)
    (fun front _ (action : Action) => action.ExportsAll front)
    ⟨compacts_start empty positive, course_daily empty [],
      congrArg Stores.dailyStats empty.symm⟩
    (fun _ _ inv => inv.2.2)
    (fun _ _ _ inside inv exports => ⟨inv.1.step ordered boundaries positive inside,
      Course.daily_step inv.2.1, (inv.1.daily inv.2.1 inside inv.2.2).mpr exports⟩)
    (fun _ _ _ inside inv fails => fun same => fails ((inv.1.daily inv.2.1 inside inv.2.2).mp same))
  refine Iff.trans ?_ steps
  refine forall_congr' fun front => ?_
  constructor
  · intro recover inside
    obtain ⟨r, returned, reached⟩ :=
      ordered_follows walInverse valid ordered empty follows inside
    exact (dailyStatsRecover_iff reached inverse).mp (recover r inside returned)
  · intro same r inside returned
    obtain ⟨r', returned', reached⟩ :=
      ordered_follows walInverse valid ordered empty follows inside
    obtain ⟨_, rfl⟩ := EStateM.Result.ok.inj (returned'.symm.trans returned)
    exact (dailyStatsRecover_iff reached inverse).mpr (same inside)

/-- A trader closes a position on day `i`. -/
def dailyClose (i : Nat) : IndexedEvent :=
  ⟨UInt64.ofNat (i + 1), UInt64.ofNat (86400 * i), Vector.replicate 32 0, 0, 0,
    .positionClosed (Vector.replicate 32 7) (Vector.replicate 20 1) 0 40 1 3 false⟩

/-- A close a day, and a snapshot after them. -/
def dailyCloses (days : Nat) : List Action :=
  ((List.range days).map fun i => .event (dailyClose i)) ++ [.snapshot .stored]

section DailyCloses

variable {days : Nat}

theorem dailyClose_fits (i : Nat) : Bincode.format.Fits (.indexedEvent (dailyClose i)) := by
  have length : (Bincode.format.serialize (.indexedEvent (dailyClose i))).length = 167 := rfl
  rw [Wal.Format.Fits, length]
  decide

theorem dailyCloses_valid : ∀ action ∈ dailyCloses days, action.Valid Bincode.format := by
  intro action member
  rcases List.mem_append.mp member with event | last
  · obtain ⟨i, _, rfl⟩ := List.mem_map.mp event
    refine ⟨nofun, fun entry logged => ?_⟩
    obtain rfl := Option.some.inj logged
    exact dailyClose_fits i
  · obtain rfl := List.mem_singleton.mp last
    exact ⟨nofun, nofun⟩

theorem dailyCloses_blocks : (dailyCloses days).filterMap Action.block =
    (List.range days).map fun i => UInt64.ofNat (i + 1) := by
  rw [dailyCloses, List.filterMap_append, List.filterMap_map]
  exact (List.append_nil _).trans (List.filterMap_eq_map ▸ rfl)

theorem dailyClose_block_lt (few : days < 2 ^ 32) {i j : Nat} (less : i < j) (inside : j < days) :
    UInt64.ofNat (i + 1) < UInt64.ofNat (j + 1) := by
  rw [UInt64.lt_iff_toNat_lt, UInt64.toNat_ofNat', UInt64.toNat_ofNat']
  omega

theorem dailyCloses_ordered (few : days < 2 ^ 32) : Ordered (dailyCloses days) := by
  rw [Ordered, dailyCloses_blocks, List.pairwise_map]
  refine List.Pairwise.imp_of_mem (fun _ inside less => ?_) List.pairwise_lt_range
  exact UInt64.le_of_lt (dailyClose_block_lt few less (List.mem_range.mp inside))

theorem dailyCloses_positive (few : days < 2 ^ 32) :
    ∀ block ∈ (dailyCloses days).filterMap Action.block, 1 ≤ block := by
  intro block member
  rw [dailyCloses_blocks] at member
  obtain ⟨i, inside, rfl⟩ := List.mem_map.mp member
  have small := List.mem_range.mp inside
  rw [UInt64.le_iff_toNat_le, UInt64.toNat_ofNat']
  change 1 ≤ (i + 1) % 2 ^ 64
  omega

theorem dailyCloses_boundaries (few : days < 2 ^ 32) : AtBoundaries (dailyCloses days) := by
  intro front order back split
  have last : back = [] := by
    rcases back.eq_nil_or_concat with none | ⟨rest, action, rfl⟩
    · exact none
    · rw [dailyCloses, List.concat_eq_append, ← List.cons_append, ← List.append_assoc] at split
      have events := (List.append_inj' split rfl).1
      have inside : Action.snapshot order ∈
          (List.range days).map fun i => Action.event (dailyClose i) := by
        rw [events]
        simp
      simp at inside
  subst last
  refine ⟨UInt64.ofNat (days + 1), fun block member => ?_, fun block member => by cases member⟩
  have inside : block ∈ (dailyCloses days).filterMap Action.block := by
    rw [split, List.filterMap_append]
    exact List.mem_append_left _ member
  rw [dailyCloses_blocks] at inside
  obtain ⟨i, listed, rfl⟩ := List.mem_map.mp inside
  have small := List.mem_range.mp listed
  rw [UInt64.le_iff_toNat_le, UInt64.toNat_ofNat', UInt64.toNat_ofNat']
  omega

end DailyCloses

/-- Two days fit into a snapshot. -/
theorem daily_stats_recover_iff_days :
    ∃ db opened, PerfDb.open_ Bincode.formats .stored ⟨"data", "wal", 1024, .none⟩ .fresh =
        .ok db opened ∧
      ((∀ front r, front <+: dailyCloses 2 →
        runActions Bincode.formats front (opened.running db) = .ok () r →
        r.DailyStatsRecover Bincode.formats) ↔
      ∀ front action, front ++ [action] <+: dailyCloses 2 → action.ExportsAll front) := by
  obtain ⟨db, opened, run, _⟩ := follows_blank Bincode.formats .stored
    ⟨"data", "wal", 1024, .none⟩ Disk.fresh_blank
  exact ⟨db, opened, run, daily_stats_recover_iff Bincode.formats Bincode.format_roundTrips
    Bincode.snapshotFormat_roundTrips _ dailyCloses_valid (dailyCloses_ordered (by decide))
    (dailyCloses_positive (by decide)) (dailyCloses_boundaries (by decide)) .stored
    ⟨"data", "wal", 1024, .none⟩ .fresh opened Disk.fresh_blank db run⟩

theorem dailyClose_dates :
    ((List.range 1001).map fun i => timestampToDate (UInt64.ofNat (86400 * i))).IsChain (· < ·) := by
  decide +kernel

theorem dailyClose_active : (activeDates (Vector.replicate 20 1)
    ((List.range 1001).map dailyClose)).card = 1001 := by
  have dates : (((List.range 1001).map dailyClose).filterMap fun indexed =>
      indexed.closeDate (Vector.replicate 20 1)) =
        (List.range 1001).map fun i => timestampToDate (UInt64.ofNat (86400 * i)) := by
    rw [List.filterMap_map]
    exact List.filterMap_eq_map ▸ rfl
  rw [activeDates, dates, List.toFinset_card_of_nodup, List.length_map, List.length_range]
  exact (List.isChain_iff_pairwise.mp dailyClose_dates).imp fun less => UInt32.ne_of_lt less

/-- Of a thousand and one days one is missing after a restart. -/
theorem oldest_day_lost :
    ∃ db opened r, PerfDb.open_ Bincode.formats .stored ⟨"data", "wal", 1024, .none⟩ .fresh =
        .ok db opened ∧
      runActions Bincode.formats (dailyCloses 1001) (opened.running db) = .ok () r ∧
      ¬ r.DailyStatsRecover Bincode.formats := by
  obtain ⟨db, opened, run, empty, follows⟩ := follows_blank Bincode.formats .stored
    ⟨"data", "wal", 1024, .none⟩ Disk.fresh_blank
  have ordered : Ordered (dailyCloses 1001) := dailyCloses_ordered (by decide)
  obtain ⟨r, returned, reached⟩ := ordered_follows Bincode.format_roundTrips
    dailyCloses_valid ordered empty follows (List.prefix_refl _)
  refine ⟨db, opened, r, run, returned, fun recover => ?_⟩
  have same := (dailyStatsRecover_iff reached Bincode.snapshotFormat_roundTrips).mp recover
  obtain ⟨front, split, closes⟩ : ∃ front, dailyCloses 1001 = front ++ [.snapshot .stored] ∧
      front.filterMap Action.processed = (List.range 1001).map dailyClose := by
    refine ⟨_, rfl, ?_⟩
    rw [List.filterMap_map]
    exact List.filterMap_eq_map ▸ rfl
  rw [split] at ordered
  have dated := course_dated empty (ordered.of_prefix (List.prefix_append front _))
  have daily := course_daily empty front
  rw [split, course_append_one, dated.exports_iff daily] at same
  have few := same (Vector.replicate 20 1)
  rw [closes, dailyClose_active] at few
  exact absurd few (by decide)

end Perfdb
