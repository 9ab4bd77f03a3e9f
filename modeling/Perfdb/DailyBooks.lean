import Mathlib
import Perfdb.EventEffects
import Perfdb.Postings

set_option autoImplicit false

namespace Perfdb

/-- Profit, volume, trades and fees, in the types they are kept in. -/
abbrev Sums := FixedI128 × FixedI128 × UInt32 × FixedI128

def DailyStats.sums (s : DailyStats) : Sums := (s.pnl, s.volume, s.trades, s.fees)

def TraderStats.sums (s : TraderStats) : Sums :=
  (s.totalPnl, s.totalVolume, s.totalTrades, s.totalFeesPaid)

namespace IndexedEvent

/-- What an event does to the daily stats, processed live or replayed. -/
def onDailyStats (indexed : IndexedEvent) (store : DailyStatsStore) : DailyStatsStore :=
  match indexed.event with
  | .positionClosed _ user _ closedSizeUsd _ realizedPnl _ =>
      store.accumulateTrade user (timestampToDate indexed.blockTimestamp) closedSizeUsd realizedPnl 0
  | _ => store

/-- What a close adds up to, and for whom. -/
def closed (indexed : IndexedEvent) : Option (Address × Sums) :=
  match indexed.event with
  | .positionClosed _ user _ closedSizeUsd _ realizedPnl _ =>
      some (user, (realizedPnl, closedSizeUsd, 1, 0))
  | _ => none

/-- The penalty of a liquidation, and who pays it. -/
def penalized (indexed : IndexedEvent) : Option (Address × FixedI128) :=
  match indexed.event with
  | .liquidation _ user _ _ penalty _ => some (user, penalty)
  | _ => none

/-- What the lifetime stats keep of an event. -/
def booked (indexed : IndexedEvent) : Option (Address × Sums) :=
  match indexed.event with
  | .positionOpened _ user _ _ _ _ _ _ _ => some (user, 0)
  | .positionClosed _ user _ closedSizeUsd _ realizedPnl _ =>
      some (user, (realizedPnl, closedSizeUsd, 1, 0))
  | .liquidation _ user _ _ penalty _ => some (user, (-penalty, 0, 1, 0))
  | _ => none

end IndexedEvent

theorem applyEvent_dailyStats (indexed : IndexedEvent) (db : PerfDb) :
    (db.applyEvent indexed).dailyStats = indexed.onDailyStats db.dailyStats := by
  obtain ⟨blockNumber, blockTimestamp, txHash, txIndex, logIndex, event⟩ := indexed
  cases event with
  | positionClosed =>
      simp only [PerfDb.applyEvent]
      split <;> rfl
  | _ =>
      simp only [PerfDb.applyEvent, PerfDb.publishFound_toStores]
      rfl

theorem replayEvent_dailyStats (indexed : IndexedEvent) (stores : Stores) :
    (replayEvent indexed stores).dailyStats = indexed.onDailyStats stores.dailyStats := by
  obtain ⟨blockNumber, blockTimestamp, txHash, txIndex, logIndex, event⟩ := indexed
  cases event <;> rfl

/-- The penalties of a trader's liquidations, in order. -/
def penalties (trader : Address) (events : List IndexedEvent) : List FixedI128 :=
  ((events.filterMap IndexedEvent.penalized).filter fun paid => paid.1 = trader).map Prod.snd

/-- The closes by trader and date. -/
def dailyPostings (events : List IndexedEvent) : List ((Address × UInt32) × Sums) :=
  events.filterMap fun indexed => indexed.closed.map fun posting =>
    ((posting.1, timestampToDate indexed.blockTimestamp), posting.2)

def penaltyPostings (events : List IndexedEvent) : List (Address × Sums) :=
  (events.filterMap IndexedEvent.penalized).map fun paid => (paid.1, (-paid.2, 0, 1, 0))

section Split

variable (kind : Address → Prop) [DecidablePred kind]

/-- The lifetime stats keep the closes and the liquidations. -/
theorem posted_booked (events : List IndexedEvent) :
    posted (events.filterMap IndexedEvent.booked) kind =
      posted (dailyPostings events) (fun key => kind key.1) +
        posted (penaltyPostings events) kind := by
  induction events with
  | nil => rfl
  | cons indexed events ih =>
      obtain ⟨blockNumber, blockTimestamp, txHash, txIndex, logIndex, event⟩ := indexed
      rw [dailyPostings, penaltyPostings] at ih ⊢
      cases event with
      | positionOpened | positionClosed | liquidation =>
          simp only [List.filterMap_cons, IndexedEvent.booked, IndexedEvent.closed,
            IndexedEvent.penalized, Option.map_some, Option.map_none, List.map_cons, posted_cons, ih]
          split <;> abel
      | _ => exact ih

theorem posted_penalties (trader : Address) (events : List IndexedEvent) :
    posted (penaltyPostings events) (fun user => user = trader) =
      (-(penalties trader events).sum, 0, UInt32.ofNat (penalties trader events).length, 0) := by
  rw [penaltyPostings, penalties]
  induction events.filterMap IndexedEvent.penalized with
  | nil =>
      rw [List.map_nil, List.filter_nil, List.map_nil, List.sum_nil, neg_zero]
      rfl
  | cons paid paids ih =>
      rw [List.map_cons, posted_cons, ih, List.filter_cons]
      by_cases mine : paid.1 = trader
      · simp only [mine, if_true, decide_true, List.map_cons, List.sum_cons, List.length_cons,
          UInt32.ofNat_add, Prod.mk_add_mk, add_zero, neg_add]
        rw [add_comm (1 : UInt32)]
        rfl
      · simp [mine]

end Split

theorem DailyStatsStore.books_event {store : DailyStatsStore}
    {postings : List ((Address × UInt32) × Sums)}
    (books : Table.Books DailyStats.sums store.traderDaily postings) (indexed : IndexedEvent) :
    Table.Books DailyStats.sums (indexed.onDailyStats store).traderDaily
      (postings ++ dailyPostings [indexed]) := by
  obtain ⟨blockNumber, blockTimestamp, txHash, txIndex, logIndex, event⟩ := indexed
  cases event with
  | positionClosed positionId user marketId closedSizeUsd exitPrice realizedPnl isFullClose =>
      refine books.post (user, timestampToDate blockTimestamp) (realizedPnl, closedSizeUsd, 1, 0)
        ?_ ?_
      · cases store.traderDaily[(user, timestampToDate blockTimestamp)]? <;> rfl
      · rw [Table.weightAt]
        cases store.traderDaily[(user, timestampToDate blockTimestamp)]? with
        | none => exact (zero_add _).symm
        | some s => rfl
  | _ =>
      rw [show dailyPostings [_] = [] from rfl, List.append_nil]
      exact books

namespace TraderStatsStore

theorem ensure_update (store : TraderStatsStore) (user : Address)
    (change : TraderStats → TraderStats) : ((store.ensure user).update user change).2.stats =
      store.stats.alter user fun known =>
        some (change (known.getD (TraderStats.zero user))) := by
  apply Std.ExtTreeMap.ext_getElem?
  intro other
  simp only [update, ensure, Table.getElem?_modify, Table.getElem?_insertIfNew,
    Table.getElem?_alter]
  split <;> simp

theorem books_change {store : TraderStatsStore} {postings : List (Address × Sums)}
    (books : Table.Books TraderStats.sums store.stats postings) (user : Address) (amount : Sums)
    {change : TraderStats → TraderStats} (grows : ∀ s, (change s).sums = s.sums + amount) :
    Table.Books TraderStats.sums ((store.ensure user).update user change).2.stats
      (postings ++ [(user, amount)]) := by
  rw [ensure_update]
  refine books.post user amount rfl ?_
  rw [Table.weightAt]
  cases store.stats[user]? with
  | none => exact grows _
  | some s => exact grows s

theorem books_event {store : TraderStatsStore} {postings : List (Address × Sums)}
    (books : Table.Books TraderStats.sums store.stats postings) (indexed : IndexedEvent) :
    Table.Books TraderStats.sums (indexed.onTraderStats store).stats
      (postings ++ [indexed].filterMap IndexedEvent.booked) := by
  rw [onTraderStats_eq]
  obtain ⟨blockNumber, blockTimestamp, txHash, txIndex, logIndex, event⟩ := indexed
  cases event with
  | positionOpened positionId user => exact books_change books user 0 fun s => (add_zero _).symm
  | positionClosed positionId user marketId closedSizeUsd exitPrice realizedPnl isFullClose =>
      exact books_change books user (realizedPnl, closedSizeUsd, 1, 0) fun s => by
        cases isFullClose <;> rfl
  | liquidation positionId user marketId liquidationPrice penalty liquidator =>
      exact books_change books user (-penalty, 0, 1, 0) fun s => rfl
  | _ =>
      rw [show [_].filterMap IndexedEvent.booked = [] from rfl, List.append_nil]
      exact books

end TraderStatsStore

theorem applyAll_books (events : List IndexedEvent) {db : PerfDb} (empty : db.toStores = .new) :
    Table.Books DailyStats.sums (applyAll events db).dailyStats.traderDaily
        (dailyPostings events) ∧
      Table.Books TraderStats.sums (applyAll events db).traderStats.stats
        (events.filterMap IndexedEvent.booked) := by
  refine foldl_holds (fun front (db : PerfDb) =>
    Table.Books DailyStats.sums db.dailyStats.traderDaily (dailyPostings front) ∧
      Table.Books TraderStats.sums db.traderStats.stats (front.filterMap IndexedEvent.booked)) ?_
    fun front indexed db inside books => ?_
  · rw [empty]
    exact ⟨.empty, .empty⟩
  · rw [applyEvent_dailyStats, (applyEvent_effects indexed db).traderStats, dailyPostings,
      List.filterMap_append, List.filterMap_append]
    exact ⟨DailyStatsStore.books_event books.1 indexed,
      TraderStatsStore.books_event books.2 indexed⟩

def DailyStatsStore.Covered (store : DailyStatsStore) (dates : Finset UInt32) : Prop :=
  ∀ trader date, (store.getTraderDaily trader date).isSome → date ∈ dates

/-- Over all dates, the daily stats come to the lifetime stats. -/
structure AddUp (order : Iteration) (stores : Stores) (dates : Finset UInt32) : Prop where
  traders : ∀ trader,
    ∑ date ∈ dates, ((stores.dailyStats.getTraderDaily trader date).map DailyStats.sums).getD 0 =
      ((stores.traderStats.get trader).map TraderStats.sums).getD 0
  protocol : ∑ date ∈ dates, (stores.dailyStats.protocolDaily order date).sums =
    ((stores.traderStats.all order).map TraderStats.sums).sum

theorem DailyStatsStore.protocolDaily_sums (order : Iteration) (store : DailyStatsStore)
    (date : UInt32) : (store.protocolDaily order date).sums =
      posted (store.traderDaily.toList.map fun entry => (entry.1, entry.2.sums))
        fun key => key.2 = date := by
  have folded (entries : List ((Address × UInt32) × DailyStats)) (agg : DailyStats) :
      (entries.foldl (fun agg entry => if entry.1.2 = date then
        { agg with
          volume := agg.volume + entry.2.volume
          pnl := agg.pnl + entry.2.pnl
          trades := agg.trades + entry.2.trades
          fees := agg.fees + entry.2.fees } else agg) agg).sums = agg.sums +
        posted (entries.map fun entry => (entry.1, entry.2.sums)) fun key => key.2 = date := by
    induction entries generalizing agg with
    | nil => exact (add_zero _).symm
    | cons entry entries ih =>
        rw [List.foldl_cons, ih, List.map_cons, posted_cons, ← add_assoc]
        congr 1
        by_cases here : entry.1.2 = date
        · rw [if_pos here, if_pos here]
          rfl
        · rw [if_neg here, if_neg here, add_zero]
  have shuffled := (((order.perm store.traderDaily.toList).map
    fun entry => (entry.1, entry.2.sums)).filter fun posting => decide (posting.1.2 = date)).map
      Prod.snd
  exact (folded _ _).trans ((zero_add _).trans shuffled.sum_eq)

section AddUp

variable {stores : Stores} {daily : List ((Address × UInt32) × Sums)}
  {lifetime : List (Address × Sums)} {dates : Finset UInt32}

theorem sum_getTraderDaily (books : Table.Books DailyStats.sums stores.dailyStats.traderDaily daily)
    (covered : stores.dailyStats.Covered dates) (trader : Address) :
    ∑ date ∈ dates, ((stores.dailyStats.getTraderDaily trader date).map DailyStats.sums).getD 0 =
      posted daily fun key => key.1 = trader := by
  rw [← sum_posted daily (fun key => key.1 = trader) Prod.snd dates]
  · refine Finset.sum_congr rfl fun date _ => (books.holds (trader, date)).trans ?_
    exact posted_congr daily _ fun posting _ => Prod.ext_iff
  · exact fun posting member => covered posting.1.1 posting.1.2 (books.known posting member)

theorem sum_protocolDaily (order : Iteration)
    (books : Table.Books DailyStats.sums stores.dailyStats.traderDaily daily)
    (covered : stores.dailyStats.Covered dates) :
    ∑ date ∈ dates, (stores.dailyStats.protocolDaily order date).sums =
      posted daily fun _ => True := by
  have all := sum_posted (stores.dailyStats.traderDaily.toList.map
    fun entry => (entry.1, entry.2.sums)) (fun _ => True) Prod.snd dates (fun posting member => by
      obtain ⟨⟨⟨trader, date⟩, s⟩, inside, rfl⟩ := List.mem_map.mp member
      rw [Std.ExtTreeMap.mem_toList_iff_getElem?_eq_some] at inside
      exact covered trader date (Option.isSome_of_eq_some inside))
  simp only [true_and] at all
  rw [Finset.sum_congr rfl fun date _ =>
    DailyStatsStore.protocolDaily_sums order stores.dailyStats date, all, ← books.total,
    Table.total, posted, List.filter_eq_self.mpr (by simp), List.map_map]
  rfl

theorem DailyStatsStore.exists_covered (store : DailyStatsStore) : ∃ dates, store.Covered dates := by
  refine ⟨(store.traderDaily.toList.map fun entry => entry.1.2).toFinset,
    fun trader date present => ?_⟩
  obtain ⟨s, found⟩ := Option.isSome_iff_exists.mp present
  refine List.mem_toFinset.mpr (List.mem_map.mpr ⟨((trader, date), s), ?_, rfl⟩)
  exact Std.ExtTreeMap.mem_toList_iff_getElem?_eq_some.mpr found

end AddUp

/-- A trader's liquidations, which the daily stats leave out, come to nothing. -/
structure Unpenalized (trader : Address) (events : List IndexedEvent) : Prop where
  count : UInt32.ofNat (penalties trader events).length = 0
  sum : (penalties trader events).sum = 0

theorem unpenalized_iff (trader : Address) (events : List IndexedEvent) :
    Unpenalized trader events ↔ (posted (penaltyPostings events) fun user => user = trader) = 0 := by
  rw [posted_penalties]
  constructor
  · rintro ⟨count, sum⟩
    rw [count, sum, neg_zero]
    rfl
  · intro none
    obtain ⟨sum, rest⟩ := Prod.mk.inj none
    exact ⟨(Prod.mk.inj (Prod.mk.inj rest).2).1, neg_eq_zero.mp sum⟩

/-- The daily stats add up to the lifetime stats in the runs in which the liquidations of
each trader come to nothing. -/
theorem daily_stats_add_up_iff (fmt : Wal.Format) (events : List IndexedEvent) (r t : Running)
    (empty : r.db.toStores = .new) (run : runLive fmt (events.map .event) r = .ok () t)
    (order : Iteration) :
    (∀ dates, t.db.dailyStats.Covered dates → AddUp order t.db.toStores dates) ↔
      ∀ trader, Unpenalized trader events := by
  obtain ⟨daily, lifetime⟩ := applyAll_books events empty
  rw [← runLive_events events run] at daily lifetime
  constructor
  · intro addUp trader
    obtain ⟨dates, covered⟩ := t.db.dailyStats.exists_covered
    have same := (addUp dates covered).traders trader
    rw [sum_getTraderDaily daily covered] at same
    have split := (lifetime.holds trader).trans (posted_booked _ events)
    exact (unpenalized_iff trader events).mpr (left_eq_add.mp (same.trans split))
  · intro unpenalized dates covered
    have nothing (trader : Address) := (unpenalized_iff trader events).mp (unpenalized trader)
    refine ⟨fun trader => ?_, ?_⟩
    · rw [sum_getTraderDaily daily covered]
      have split := (lifetime.holds trader).trans (posted_booked _ events)
      rw [nothing, add_zero] at split
      exact split.symm
    · have none : posted (penaltyPostings events) (fun _ => True) = 0 := by
        have users := sum_posted (penaltyPostings events) (fun _ => True) id
          ((penaltyPostings events).map Prod.fst).toFinset fun posting member =>
            List.mem_toFinset.mpr (List.mem_map_of_mem member)
        simp only [true_and, id, nothing, Finset.sum_const_zero] at users
        exact users.symm
      rw [sum_protocolDaily order daily covered]
      have split := lifetime.total.trans (posted_booked _ events)
      rw [none, add_zero] at split
      rw [← split]
      exact Table.total_eq_sum_all _ _ order

/-- A close and a liquidation of the same trader. -/
def bookedClose : IndexedEvent :=
  ⟨5, 1700000000, Vector.replicate 32 0, 0, 0,
    .positionClosed (Vector.replicate 32 7) (Vector.replicate 20 1) 0 40 1 3 false⟩

def bookedLiquidation : IndexedEvent :=
  ⟨6, 1700000012, Vector.replicate 32 0, 0, 0,
    .liquidation (Vector.replicate 32 7) (Vector.replicate 20 1) 0 1 5 (Vector.replicate 20 4)⟩

theorem daily_stats_add_up_iff_close :
    ∃ db opened t, PerfDb.open_ Bincode.formats .stored ⟨"data", "wal", 1024, .none⟩ .fresh =
        .ok db opened ∧
      runLive Bincode.format ([bookedClose].map .event) (opened.running db) = .ok () t ∧
      ((∀ dates, t.db.dailyStats.Covered dates → AddUp .stored t.db.toStores dates) ↔
        ∀ trader, Unpenalized trader [bookedClose]) := by
  obtain ⟨db, opened, run, stores, ready⟩ := PerfDb.open_blank Bincode.formats .stored
    ⟨"data", "wal", 1024, .none⟩ Disk.fresh_blank
  obtain ⟨t, live⟩ := runLive_returns Bincode.format ([bookedClose].map .event) ready
  exact ⟨db, opened, t, run, live,
    daily_stats_add_up_iff Bincode.format [bookedClose] _ t stores live .stored⟩

/-- After the liquidation the lifetime stats have a trade that no date has. -/
theorem liquidation_on_no_date :
    ∃ db opened t, PerfDb.open_ Bincode.formats .stored ⟨"data", "wal", 1024, .none⟩ .fresh =
        .ok db opened ∧
      runLive Bincode.format ([bookedLiquidation].map .event) (opened.running db) = .ok () t ∧
      ¬ ∀ dates, t.db.dailyStats.Covered dates → AddUp .stored t.db.toStores dates := by
  obtain ⟨db, opened, run, stores, ready⟩ := PerfDb.open_blank Bincode.formats .stored
    ⟨"data", "wal", 1024, .none⟩ Disk.fresh_blank
  obtain ⟨t, live⟩ := runLive_returns Bincode.format ([bookedLiquidation].map .event) ready
  refine ⟨db, opened, t, run, live, fun addUp => ?_⟩
  have after := runLive_events [bookedLiquidation] live
  have daily : t.db.dailyStats = .new := by
    rw [after]
    change (db.applyEvent bookedLiquidation).dailyStats = .new
    rw [applyEvent_dailyStats]
    exact congrArg Stores.dailyStats stores
  have lifetime : ∃ s, t.db.traderStats.get (Vector.replicate 20 1) = some s ∧
      s.totalTrades = 1 := by
    rw [after]
    change ∃ s, (db.applyEvent bookedLiquidation).traderStats.get _ = some s ∧ _
    have start : db.traderStats = .new := congrArg Stores.traderStats stores
    rw [(applyEvent_effects bookedLiquidation db).traderStats, onTraderStats_eq, start]
    have unknown : TraderStatsStore.new.get (Vector.replicate 20 1) = none :=
      Std.ExtTreeMap.getElem?_empty
    refine ⟨_, (TraderStatsStore.get_ensure_update _ _ _ _).trans (if_pos rfl), ?_⟩
    rw [unknown]
    rfl
  obtain ⟨s, known, one⟩ := lifetime
  have same := (addUp ∅ fun trader date present => ?_).traders (Vector.replicate 20 1)
  · rw [known] at same
    have trades := congrArg (fun sums : Sums => sums.2.2.1) same
    change (0 : UInt32) = s.totalTrades at trades
    rw [one] at trades
    exact absurd trades (by decide)
  · rw [daily] at present
    change ((∅ : Table (Address × UInt32) DailyStats)[(trader, date)]?).isSome at present
    rw [Std.ExtTreeMap.getElem?_empty] at present
    contradiction

end Perfdb
