import Mathlib
import Perfdb.StoreKeys
import Perfdb.TopN

set_option autoImplicit false

namespace Perfdb

structure LeaderboardEntry where
  rank : UInt32
  address : Address
  value : FixedI128
  totalTrades : UInt32
  winCount : UInt32
  lossCount : UInt32
  deriving DecidableEq

inductive LeaderboardMetric where
  | pnl
  | volume
  deriving DecidableEq

structure LeaderboardData where
  entries : List LeaderboardEntry
  lastRebuiltAt : UInt64
  deriving DecidableEq

def LeaderboardData.default : LeaderboardData := ⟨[], 0⟩

/-- In-memory leaderboard cache, rebuilt periodically from the trader stats. -/
structure Leaderboard where
  pnlData : LeaderboardData
  volumeData : LeaderboardData
  maxEntries : Nat

def LeaderboardMetric.value : LeaderboardMetric → TraderStats → FixedI128
  | .pnl => TraderStats.totalPnl
  | .volume => TraderStats.totalVolume

def sortedTraders (metric : LeaderboardMetric) (maxEntries : Nat) (allStats : List TraderStats) :
    List TraderStats :=
  ((allStats.filter fun s => 0 < s.totalTrades).insertionSort
    fun a b => metric.value b ≤ metric.value a).take maxEntries

def rankedEntry (metric : LeaderboardMetric) (item : TraderStats × Nat) : LeaderboardEntry where
  rank := UInt32.ofNat (item.2 + 1)
  address := item.1.address
  value := metric.value item.1
  totalTrades := item.1.totalTrades
  winCount := item.1.winCount
  lossCount := item.1.lossCount

def rebuildBoard (metric : LeaderboardMetric) (maxEntries : Nat) (allStats : List TraderStats)
    (now : UInt64) : LeaderboardData where
  entries := (sortedTraders metric maxEntries allStats).zipIdx.map (rankedEntry metric)
  lastRebuiltAt := now

def LeaderboardData.rank (data : LeaderboardData) (address : Address) : Option UInt32 :=
  (data.entries.find? fun e => e.address = address).map LeaderboardEntry.rank

namespace Leaderboard

/-- Create a leaderboard with a maximum number of entries per board. -/
def new (maxEntries : Nat) : Leaderboard := ⟨.default, .default, maxEntries⟩

def rebuildPnl (lb : Leaderboard) (allStats : List TraderStats) (now : UInt64) : Leaderboard :=
  { lb with pnlData := rebuildBoard .pnl lb.maxEntries allStats now }

def rebuildVolume (lb : Leaderboard) (allStats : List TraderStats) (now : UInt64) : Leaderboard :=
  { lb with volumeData := rebuildBoard .volume lb.maxEntries allStats now }

/-- Rebuild both leaderboards from a snapshot of all trader stats. -/
def rebuild (lb : Leaderboard) (allStats : List TraderStats) (now : UInt64) : Leaderboard :=
  (lb.rebuildPnl allStats now).rebuildVolume allStats now

def pnlBoard (lb : Leaderboard) (limit : Nat) : List LeaderboardEntry :=
  lb.pnlData.entries.take limit

def volumeBoard (lb : Leaderboard) (limit : Nat) : List LeaderboardEntry :=
  lb.volumeData.entries.take limit

/-- A trader's rank on the PnL leaderboard. `none` if not in the top. -/
def pnlRank (lb : Leaderboard) (address : Address) : Option UInt32 := lb.pnlData.rank address

def volumeRank (lb : Leaderboard) (address : Address) : Option UInt32 := lb.volumeData.rank address

def data (lb : Leaderboard) : LeaderboardMetric → LeaderboardData
  | .pnl => lb.pnlData
  | .volume => lb.volumeData

def board (lb : Leaderboard) : LeaderboardMetric → Nat → List LeaderboardEntry
  | .pnl => lb.pnlBoard
  | .volume => lb.volumeBoard

def rank (lb : Leaderboard) : LeaderboardMetric → Address → Option UInt32
  | .pnl => lb.pnlRank
  | .volume => lb.volumeRank

theorem rebuild_data (lb : Leaderboard) (allStats : List TraderStats) (now : UInt64)
    (metric : LeaderboardMetric) : (lb.rebuild allStats now).data metric =
      rebuildBoard metric lb.maxEntries allStats now := by
  cases metric <;> rfl

theorem rank_eq (lb : Leaderboard) (metric : LeaderboardMetric) :
    lb.rank metric = (lb.data metric).rank := by
  cases metric <;> rfl

theorem board_eq (lb : Leaderboard) (metric : LeaderboardMetric) (limit : Nat) :
    lb.board metric limit = (lb.data metric).entries.take limit := by
  cases metric <;> rfl

end Leaderboard

def PerfDb.rebuildLeaderboard (order : Iteration) (db : PerfDb) (lb : Leaderboard) (now : UInt64) :
    Leaderboard :=
  lb.rebuild (db.traderStats.all order) now

theorem TraderStatsStore.nodup_all (order : Iteration) {store : TraderStatsStore}
    (keyed : store.stats.Keyed TraderStats.address) :
    ((store.all order).map TraderStats.address).Nodup := by
  have keys : (store.stats.toList.map Prod.fst).Nodup := by
    rw [Std.ExtTreeMap.map_fst_toList_eq_keys]
    exact Std.ExtTreeMap.nodup_keys
  have same : store.stats.toList.map (fun item => item.2.address) =
      store.stats.toList.map Prod.fst := by
    refine List.map_congr_left fun item member => ?_
    exact keyed item.1 item.2 (Std.ExtTreeMap.mem_toList_iff_getElem?_eq_some.mp member)
  have listed := (order.perm store.stats.toList).map fun item => item.2.address
  rw [all, Table.all, List.map_map]
  refine listed.nodup_iff.mpr ?_
  rw [same]
  exact keys

def LeaderboardMetric.level (metric : LeaderboardMetric) (s : TraderStats) : Int :=
  (metric.value s).toInt

/-- The traders that have traded. -/
def active (allStats : List TraderStats) : List TraderStats :=
  allStats.filter fun s => 0 < s.totalTrades

theorem mem_active {allStats : List TraderStats} {s : TraderStats} :
    s ∈ active allStats ↔ s ∈ allStats ∧ 0 < s.totalTrades := by
  rw [active, List.mem_filter, decide_eq_true_eq]

theorem sortedTraders_eq (metric : LeaderboardMetric) (maxEntries : Nat)
    (allStats : List TraderStats) :
    sortedTraders metric maxEntries allStats = topBy metric.level maxEntries (active allStats) :=
  rfl

section Board

variable (metric : LeaderboardMetric) (maxEntries : Nat) (allStats : List TraderStats)
  (now : UInt64)

theorem rebuildBoard_length : (rebuildBoard metric maxEntries allStats now).entries.length =
    min maxEntries (active allStats).length := by
  rw [rebuildBoard, List.length_map, List.length_zipIdx, sortedTraders_eq, topBy_length]

theorem rebuildBoard_getElem? (i : Nat) :
    (rebuildBoard metric maxEntries allStats now).entries[i]? =
      ((sortedTraders metric maxEntries allStats)[i]?).map fun s => rankedEntry metric (s, i) := by
  rw [rebuildBoard, List.getElem?_map, List.getElem?_zipIdx, Option.map_map, Nat.zero_add]
  rfl

/-- What an entry shows of a trader, without the rank, is taken from the sorted traders. -/
theorem rebuildBoard_map {δ : Type} (show' : LeaderboardEntry → δ) (own : TraderStats → δ)
    (same : ∀ item, show' (rankedEntry metric item) = own item.1) :
    (rebuildBoard metric maxEntries allStats now).entries.map show' =
      (sortedTraders metric maxEntries allStats).map own := by
  apply List.ext_getElem?
  intro i
  rw [List.getElem?_map, rebuildBoard_getElem?, List.getElem?_map, Option.map_map]
  exact congrFun (congrArg Option.map (funext fun s => same (s, i))) _

theorem rebuildBoard_take (limit : Nat) :
    (rebuildBoard metric maxEntries allStats now).entries.take limit =
      (rebuildBoard metric (min limit maxEntries) allStats now).entries := by
  apply List.ext_getElem?
  intro i
  rw [List.getElem?_take, rebuildBoard_getElem?, rebuildBoard_getElem?, sortedTraders,
    sortedTraders, ← List.take_take, List.getElem?_take (i := limit)]
  split <;> rfl

end Board

/-- The entries and ranks of a board that shows the top of the traders. -/
structure TopBoard (metric : LeaderboardMetric) (maxEntries : Nat) (allStats : List TraderStats)
    (entries : List LeaderboardEntry) (rank : Address → Option UInt32) : Prop where
  length : entries.length = min maxEntries (active allStats).length
  traders : ∀ e ∈ entries, ∃ s ∈ active allStats, e.address = s.address ∧
    e.value = metric.value s ∧ e.totalTrades = s.totalTrades ∧ e.winCount = s.winCount ∧
    e.lossCount = s.lossCount
  once : (entries.map LeaderboardEntry.address).Nodup
  sorted : entries.Pairwise fun a b => b.value ≤ a.value
  ranks : entries.map (fun e => e.rank.toNat) = List.range' 1 entries.length
  omitted : ∀ s ∈ active allStats, s.address ∉ entries.map LeaderboardEntry.address →
    ∀ e ∈ entries, metric.value s ≤ e.value
  places : ∀ a r, rank a = some r ↔
    1 ≤ r.toNat ∧ (entries[r.toNat - 1]?).map LeaderboardEntry.address = some a

section Top

variable (metric : LeaderboardMetric) (maxEntries : Nat) {allStats : List TraderStats}
  (now : UInt64)

theorem rebuildBoard_nodup (distinct : (allStats.map TraderStats.address).Nodup) :
    ((rebuildBoard metric maxEntries allStats now).entries.map LeaderboardEntry.address).Nodup := by
  rw [rebuildBoard_map metric maxEntries allStats now _ TraderStats.address fun _ => rfl,
    sortedTraders_eq]
  have listed : ((active allStats).map TraderStats.address).Nodup :=
    distinct.sublist (List.filter_sublist.map TraderStats.address)
  obtain ⟨top, perm, inside⟩ := topBy_subperm metric.level maxEntries (active allStats)
  exact (perm.map TraderStats.address).nodup_iff.mp (listed.sublist (inside.map _))

theorem rebuildBoard_ranks (few : allStats.length < 2 ^ 32) {i : Nat} {e : LeaderboardEntry}
    (found : (rebuildBoard metric maxEntries allStats now).entries[i]? = some e) :
    e.rank.toNat = i + 1 := by
  have inside := (List.getElem?_eq_some_iff.mp found).1
  rw [rebuildBoard_length] at inside
  have filtered : (active allStats).length ≤ allStats.length := List.length_filter_le _ _
  rw [rebuildBoard_getElem?, Option.map_eq_some_iff] at found
  obtain ⟨s, _, rfl⟩ := found
  change (UInt32.ofNat (i + 1)).toNat = i + 1
  exact UInt32.toNat_ofNat_of_lt' (by change i + 1 < 2 ^ 32; omega)

theorem rebuildBoard_omitted {s : TraderStats} (member : s ∈ active allStats)
    (omitted : s.address ∉
      (rebuildBoard metric maxEntries allStats now).entries.map LeaderboardEntry.address)
    {e : LeaderboardEntry} (kept : e ∈ (rebuildBoard metric maxEntries allStats now).entries) :
    metric.value s ≤ e.value := by
  rw [rebuildBoard_map metric maxEntries allStats now _ TraderStats.address fun _ => rfl]
    at omitted
  obtain ⟨i, found⟩ := List.mem_iff_getElem?.mp kept
  rw [rebuildBoard_getElem?, Option.map_eq_some_iff] at found
  obtain ⟨other, place, rfl⟩ := found
  exact omitted_le metric.level member
    (fun here => omitted (List.mem_map_of_mem here)) (List.mem_of_getElem? place)

theorem rebuildBoard_places (distinct : (allStats.map TraderStats.address).Nodup)
    (few : allStats.length < 2 ^ 32) (a : Address) (r : UInt32) :
    (rebuildBoard metric maxEntries allStats now).rank a = some r ↔ 1 ≤ r.toNat ∧
      ((rebuildBoard metric maxEntries allStats now).entries[r.toNat - 1]?).map
        LeaderboardEntry.address = some a := by
  have once := rebuildBoard_nodup metric maxEntries now distinct
  simp only [LeaderboardData.rank, Option.map_eq_some_iff]
  constructor
  · rintro ⟨e, found, rfl⟩
    obtain ⟨i, place⟩ := List.mem_iff_getElem?.mp (List.mem_of_find?_eq_some found)
    have own := rebuildBoard_ranks metric maxEntries now few place
    refine ⟨by omega, e, ?_, by simpa using List.find?_some found⟩
    rw [own, Nat.add_sub_cancel]
    exact place
  · rintro ⟨positive, e, place, rfl⟩
    have here := List.mem_of_getElem? place
    cases found : (rebuildBoard metric maxEntries allStats now).entries.find? fun other =>
        other.address = e.address with
    | none =>
        have absent := List.find?_eq_none.mp found e here
        simp at absent
    | some other =>
        have same : other = e := List.inj_on_of_nodup_map once (List.mem_of_find?_eq_some found)
          here (by simpa using List.find?_some found)
        have own := rebuildBoard_ranks metric maxEntries now few place
        refine ⟨other, rfl, UInt32.toNat_inj.mp ?_⟩
        rw [same, own]
        omega

theorem rebuildBoard_top (distinct : (allStats.map TraderStats.address).Nodup)
    (few : allStats.length < 2 ^ 32) :
    TopBoard metric maxEntries allStats (rebuildBoard metric maxEntries allStats now).entries
      (rebuildBoard metric maxEntries allStats now).rank where
  length := rebuildBoard_length metric maxEntries allStats now
  traders e member := by
    obtain ⟨i, found⟩ := List.mem_iff_getElem?.mp member
    rw [rebuildBoard_getElem?, Option.map_eq_some_iff] at found
    obtain ⟨s, place, rfl⟩ := found
    have inside := mem_of_mem_topBy metric.level (List.mem_of_getElem? place)
    exact ⟨s, inside, rfl, rfl, rfl, rfl, rfl⟩
  once := rebuildBoard_nodup metric maxEntries now distinct
  sorted := by
    have shown := rebuildBoard_map metric maxEntries allStats now (fun e => e.value.toInt)
      metric.level fun _ => rfl
    have order : ((sortedTraders metric maxEntries allStats).map metric.level).Pairwise
        (· ≥ ·) :=
      List.pairwise_map.mpr (topBy_pairwise metric.level maxEntries (active allStats))
    rw [← shown, List.pairwise_map] at order
    exact order
  ranks := by
    apply List.ext_getElem?
    intro i
    rw [List.getElem?_map]
    cases found : (rebuildBoard metric maxEntries allStats now).entries[i]? with
    | none =>
        have outside := List.getElem?_eq_none_iff.mp found
        rw [Option.map_none, List.getElem?_eq_none]
        rw [List.length_range']
        exact outside
    | some e =>
        have inside := (List.getElem?_eq_some_iff.mp found).1
        rw [Option.map_some, rebuildBoard_ranks metric maxEntries now few found,
          List.getElem?_range' inside, Nat.one_mul, Nat.add_comm]
  omitted s member absent e kept :=
    rebuildBoard_omitted metric maxEntries now member absent kept
  places := rebuildBoard_places metric maxEntries now distinct few

end Top

theorem rebuild_board (lb : Leaderboard) (allStats : List TraderStats) (now : UInt64)
    (metric : LeaderboardMetric) (limit : Nat) : (lb.rebuild allStats now).board metric limit =
      (rebuildBoard metric (min limit lb.maxEntries) allStats now).entries := by
  rw [Leaderboard.board_eq, Leaderboard.rebuild_data, rebuildBoard_take]

/-- After a rebuild each board shows the top traders. -/
theorem rebuild_top (lb : Leaderboard) (allStats : List TraderStats) (now : UInt64)
    (distinct : (allStats.map TraderStats.address).Nodup) (few : allStats.length < 2 ^ 32)
    (metric : LeaderboardMetric) : TopBoard metric lb.maxEntries allStats
      ((lb.rebuild allStats now).data metric).entries
      ((lb.rebuild allStats now).rank metric) := by
  rw [Leaderboard.rank_eq, Leaderboard.rebuild_data]
  exact rebuildBoard_top metric lb.maxEntries now distinct few

/-- So does the rebuild of a database whose stats are stored under their traders, and a board read
up to a limit is the board of that many entries. -/
theorem PerfDb.rebuildLeaderboard_top (order : Iteration) (db : PerfDb) (lb : Leaderboard)
    (now : UInt64) (keyed : db.traderStats.stats.Keyed TraderStats.address)
    (few : (db.traderStats.all order).length < 2 ^ 32) (metric : LeaderboardMetric) :
    TopBoard metric lb.maxEntries (db.traderStats.all order)
        ((db.rebuildLeaderboard order lb now).data metric).entries
        ((db.rebuildLeaderboard order lb now).rank metric) ∧
      ∀ limit, (db.rebuildLeaderboard order lb now).board metric limit =
        (rebuildBoard metric (min limit lb.maxEntries) (db.traderStats.all order) now).entries := by
  rw [PerfDb.rebuildLeaderboard, Leaderboard.rank_eq, Leaderboard.rebuild_data]
  exact ⟨rebuildBoard_top metric lb.maxEntries now (TraderStatsStore.nodup_all order keyed) few,
    rebuild_board lb _ now metric⟩

def traderWith (id : UInt8) (pnl volume : FixedI128) (trades : UInt32) : TraderStats :=
  { TraderStats.zero (Vector.replicate 20 id) with
    totalPnl := pnl
    totalVolume := volume
    totalTrades := trades }

def fiveTraders : List TraderStats :=
  [traderWith 1 500 10 5, traderWith 2 1000 5 3, traderWith 3 (-200) 20 10,
    traderWith 4 500 7 1, traderWith 5 9000 9 0]

theorem rebuild_top_ties :
    TopBoard .pnl 3 fiveTraders (((Leaderboard.new 3).rebuild fiveTraders 7).data .pnl).entries
      (((Leaderboard.new 3).rebuild fiveTraders 7).rank .pnl) :=
  rebuild_top (Leaderboard.new 3) fiveTraders 7 (by decide +kernel) (by decide) .pnl

section Order

variable (metric : LeaderboardMetric) (maxEntries : Nat) {allStats : List TraderStats}
  (now : UInt64)

/-- Who is shown at which rank. -/
def placings (entries : List LeaderboardEntry) : List (UInt32 × Address) :=
  entries.map fun e => (e.rank, e.address)

/-- Which value is shown at which rank. -/
def levels (entries : List LeaderboardEntry) : List (UInt32 × FixedI128) :=
  entries.map fun e => (e.rank, e.value)

theorem levels_perm {others : List TraderStats} (perm : others.Perm allStats) :
    levels (rebuildBoard metric maxEntries others now).entries =
      levels (rebuildBoard metric maxEntries allStats now).entries := by
  have same := topBy_map_perm metric.level maxEntries (perm.filter fun s => 0 < s.totalTrades)
  apply List.ext_getElem?
  intro i
  rw [levels, levels, List.getElem?_map, List.getElem?_map, rebuildBoard_getElem?,
    rebuildBoard_getElem?, Option.map_map, Option.map_map]
  have here := congrArg (fun list => list[i]?) same
  simp only [List.getElem?_map] at here
  change ((topBy metric.level maxEntries (active others))[i]?).map _ =
    ((topBy metric.level maxEntries (active allStats))[i]?).map _
  change ((topBy metric.level maxEntries (active others))[i]?).map metric.level =
    ((topBy metric.level maxEntries (active allStats))[i]?).map metric.level at here
  generalize (topBy metric.level maxEntries (active others))[i]? = left at here ⊢
  generalize (topBy metric.level maxEntries (active allStats))[i]? = right at here ⊢
  cases left with
  | none =>
      rw [Option.map_none] at here
      rw [Option.map_eq_none_iff.mp here.symm]
  | some s =>
      obtain ⟨t, rfl, tie⟩ := Option.map_eq_some_iff.mp here.symm
      have value : metric.value s = metric.value t := I128.toInt_injective tie.symm
      simp only [Option.map_some, Function.comp, rankedEntry, value]

theorem rebuildBoard_perm {others : List TraderStats} (perm : others.Perm allStats)
    (settled : Settled metric.level maxEntries (active allStats)) :
    rebuildBoard metric maxEntries others now = rebuildBoard metric maxEntries allStats now := by
  have same := topBy_perm metric.level (perm.symm.filter fun s => 0 < s.totalTrades) settled
  have traders : sortedTraders metric maxEntries others =
      sortedTraders metric maxEntries allStats := same.symm
  rw [rebuildBoard, rebuildBoard, traders]

/-- A listing of some of the items can be made a listing of all of them. -/
theorem exists_perm_filter {α : Type} {p : α → Bool} {items some : List α}
    (perm : some.Perm (items.filter p)) :
    ∃ others : List α, others.Perm items ∧ others.filter p = some := by
  refine ⟨some ++ items.filter fun a => !p a, ?_, ?_⟩
  · exact (perm.append_right _).trans (List.filter_append_perm p items)
  · rw [List.filter_append, List.filter_filter]
    have all : some.filter p = some :=
      List.filter_eq_self.mpr fun a member => (List.mem_filter.mp (perm.subset member)).2
    simp [all]

/-- A board depends on the order of the traders exactly when a tie reaches into it. -/
theorem placings_perm_iff (distinct : (allStats.map TraderStats.address).Nodup) :
    (∀ others : List TraderStats, others.Perm allStats →
      placings (rebuildBoard metric maxEntries others now).entries =
        placings (rebuildBoard metric maxEntries allStats now).entries) ↔
      Settled metric.level maxEntries (active allStats) := by
  constructor
  · intro same
    by_contra unsettled
    obtain ⟨a, here, b, there, apart, first, second, one, two, i, top, bottom⟩ :=
      unsettled_swap metric.level unsettled
    obtain ⟨front, listed, rfl⟩ := exists_perm_filter one
    obtain ⟨back, relisted, rfl⟩ := exists_perm_filter two
    have equal := (same front listed).trans (same back relisted).symm
    have place := congrArg (fun list => list[i]?) equal
    simp only [placings, List.getElem?_map, rebuildBoard_getElem?] at place
    change Option.map _ (Option.map _ ((topBy metric.level maxEntries (active front))[i]?)) =
      Option.map _ (Option.map _ ((topBy metric.level maxEntries (active back))[i]?)) at place
    rw [show active front = front.filter _ from rfl, top,
      show active back = back.filter _ from rfl, bottom] at place
    simp only [Option.map_some, rankedEntry, Option.some.injEq, Prod.mk.injEq, true_and] at place
    exact apart (List.inj_on_of_nodup_map distinct (mem_active.mp here).1
      (mem_active.mp there).1 place)
  · intro settled others perm
    rw [rebuildBoard_perm metric maxEntries now perm settled]

end Order

/-- In whatever order the traders are listed, the same values are shown at the same ranks; the
same traders are exactly when no tie reaches into the board. -/
theorem rebuild_order_iff (lb : Leaderboard) (allStats : List TraderStats) (now : UInt64)
    (distinct : (allStats.map TraderStats.address).Nodup) (metric : LeaderboardMetric) :
    (∀ others : List TraderStats, others.Perm allStats →
      levels ((lb.rebuild others now).data metric).entries =
        levels ((lb.rebuild allStats now).data metric).entries) ∧
    ((∀ others : List TraderStats, others.Perm allStats →
      placings ((lb.rebuild others now).data metric).entries =
        placings ((lb.rebuild allStats now).data metric).entries) ↔
      Settled metric.level lb.maxEntries (active allStats)) := by
  simp only [Leaderboard.rebuild_data]
  exact ⟨fun others perm => levels_perm metric lb.maxEntries now perm,
    placings_perm_iff metric lb.maxEntries now distinct⟩

theorem rebuild_order_iff_apart :
    (∀ others : List TraderStats, others.Perm [traderWith 1 500 10 5, traderWith 2 700 10 3] →
      levels (((Leaderboard.new 3).rebuild others 7).data .pnl).entries =
        levels (((Leaderboard.new 3).rebuild [traderWith 1 500 10 5, traderWith 2 700 10 3]
          7).data .pnl).entries) ∧
    ((∀ others : List TraderStats, others.Perm [traderWith 1 500 10 5, traderWith 2 700 10 3] →
      placings (((Leaderboard.new 3).rebuild others 7).data .pnl).entries =
        placings (((Leaderboard.new 3).rebuild [traderWith 1 500 10 5, traderWith 2 700 10 3]
          7).data .pnl).entries) ↔
      Settled LeaderboardMetric.pnl.level 3
        (active [traderWith 1 500 10 5, traderWith 2 700 10 3])) :=
  rebuild_order_iff (Leaderboard.new 3) _ 7 (by decide +kernel) .pnl

/-- Two traders with the same profit: the first listed leads, whoever it is. -/
theorem tied_traders_swap :
    ¬ ∀ (lb : Leaderboard) (allStats others : List TraderStats) (now : UInt64)
      (metric : LeaderboardMetric), (allStats.map TraderStats.address).Nodup →
      others.Perm allStats →
      placings ((lb.rebuild others now).data metric).entries =
        placings ((lb.rebuild allStats now).data metric).entries := by
  intro same
  have swapped := same (Leaderboard.new 3) [traderWith 1 500 10 5, traderWith 2 500 20 3]
    [traderWith 2 500 20 3, traderWith 1 500 10 5] 7 .pnl (by decide +kernel)
    (List.Perm.swap _ _ _)
  revert swapped
  decide +kernel

end Perfdb
