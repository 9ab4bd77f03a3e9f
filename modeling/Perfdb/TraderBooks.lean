import Mathlib
import Perfdb.EventEffects
import Perfdb.WrappingSums

set_option autoImplicit false

namespace Perfdb

inductive Trade where
  | close (closedSizeUsd realizedPnl : FixedI128) (timestamp : UInt64)
  | liquidation (penalty : FixedI128) (timestamp : UInt64)

namespace Trade

def volume : Trade → FixedI128
  | close closedSizeUsd _ _ => closedSizeUsd
  | liquidation _ _ => 0

/-- What the trade earned, in the type the stats keep it in. -/
def pnl : Trade → FixedI128
  | close _ realizedPnl _ => realizedPnl
  | liquidation penalty _ => -penalty

def realized : Trade → Int
  | close _ realizedPnl _ => realizedPnl.toInt
  | liquidation _ _ => 0

def penalty : Trade → Int
  | close _ _ _ => 0
  | liquidation penalty _ => penalty.toInt

def won : Trade → Bool
  | close _ realizedPnl _ => 0 < realizedPnl
  | liquidation _ _ => false

def liquidated : Trade → Bool
  | close _ _ _ => false
  | liquidation _ _ => true

def lost (trade : Trade) : Bool := !trade.won && !trade.liquidated

def timestamp : Trade → UInt64
  | close _ _ timestamp | liquidation _ timestamp => timestamp

def count (trade : Trade) (s : TraderStats) : TraderStats :=
  s.addTrade trade.volume trade.pnl 0 trade.won trade.liquidated trade.timestamp

theorem outcomes (trades : List Trade) :
    trades.countP won + trades.countP lost + trades.countP liquidated = trades.length := by
  induction trades with
  | nil => rfl
  | cons trade trades ih =>
      simp only [List.countP_cons, List.length_cons]
      cases trade with
      | close closedSizeUsd realizedPnl timestamp =>
          by_cases positive : 0 < realizedPnl <;> simp [won, lost, liquidated, positive] <;> omega
      | liquidation penalty timestamp =>
          simp [won, lost, liquidated]
          omega

theorem ofInt_pnl (trade : Trade) : I128.ofInt (trade.realized - trade.penalty) = trade.pnl := by
  cases trade with
  | close closedSizeUsd realizedPnl timestamp => simp [realized, penalty, pnl]
  | liquidation penalty timestamp => simp [realized, Trade.penalty, pnl, I128.ofInt_neg]

theorem sum_realized_sub_penalty (trades : List Trade) :
    (trades.map fun trade => trade.realized - trade.penalty).sum =
      (trades.map realized).sum - (trades.map penalty).sum := by
  induction trades with
  | nil => rfl
  | cons trade trades ih =>
      simp only [List.map_cons, List.sum_cons, ih]
      omega

end Trade

def IndexedEvent.trade (trader : Address) (indexed : IndexedEvent) : Option Trade :=
  match indexed.event with
  | .positionClosed _ user _ closedSizeUsd _ realizedPnl _ =>
      if user = trader then some (.close closedSizeUsd realizedPnl indexed.blockTimestamp) else none
  | .liquidation _ user _ _ penalty _ =>
      if user = trader then some (.liquidation penalty indexed.blockTimestamp) else none
  | _ => none

def trades (trader : Address) (events : List IndexedEvent) : List Trade :=
  events.filterMap fun indexed => indexed.trade trader

/-- Stats into which exactly these trades have been counted, wrapping included. -/
structure Booked (trades : List Trade) (s : TraderStats) : Prop where
  total : s.totalTrades = UInt32.ofNat trades.length
  wins : s.winCount = UInt32.ofNat (trades.countP Trade.won)
  losses : s.lossCount = UInt32.ofNat (trades.countP Trade.lost)
  liquidations : s.liquidationCount = UInt32.ofNat (trades.countP Trade.liquidated)
  volume : s.totalVolume = (trades.map Trade.volume).sum
  pnl : s.totalPnl = (trades.map Trade.pnl).sum
  best : s.bestTradePnl.toInt = (trades.map fun trade => trade.pnl.toInt).foldl max 0
  worst : s.worstTradePnl.toInt = (trades.map fun trade => trade.pnl.toInt).foldl min 0
  first : s.firstTradeAt = trades.head?.map Trade.timestamp
  last : s.lastTradeAt = trades.getLast?.map Trade.timestamp

namespace Booked

variable {trades : List Trade} {s : TraderStats}

theorem zero (user : Address) : Booked [] (TraderStats.zero user) :=
  ⟨rfl, rfl, rfl, rfl, rfl, rfl, rfl, rfl, rfl, rfl⟩

theorem positions (booked : Booked trades s) (total current : UInt32) :
    Booked trades { s with totalPositions := total, openPositions := current } := by
  obtain ⟨total, wins, losses, liquidations, volume, pnl, best, worst, first, last⟩ := booked
  exact ⟨total, wins, losses, liquidations, volume, pnl, best, worst, first, last⟩

theorem counter {counted : UInt32} (p : Trade → Bool) (trade : Trade)
    (before : counted = UInt32.ofNat (trades.countP p)) :
    (if p trade then counted + 1 else counted) =
      UInt32.ofNat ((trades ++ [trade]).countP p) := by
  rw [List.countP_append, List.countP_singleton, before]
  split
  · exact (UInt32.ofNat_add _ 1).symm
  · rfl

theorem count (booked : Booked trades s) (trade : Trade) :
    Booked (trades ++ [trade]) (trade.count s) where
  total := by
    rw [List.length_append]
    change s.totalTrades + 1 = _
    rw [booked.total]
    exact (UInt32.ofNat_add _ 1).symm
  wins := counter Trade.won trade booked.wins
  losses := counter Trade.lost trade booked.losses
  liquidations := counter Trade.liquidated trade booked.liquidations
  volume := by
    rw [List.map_append, List.sum_append, ← booked.volume]
    change s.totalVolume + trade.volume = s.totalVolume + (trade.volume + 0)
    rw [add_zero]
  pnl := by
    rw [List.map_append, List.sum_append, ← booked.pnl]
    change s.totalPnl + trade.pnl = s.totalPnl + (trade.pnl + 0)
    rw [add_zero]
  best := by
    rw [List.map_append, List.foldl_append, ← booked.best]
    exact I128.toInt_ite_lt _ _
  worst := by
    rw [List.map_append, List.foldl_append, ← booked.worst]
    exact I128.toInt_ite_gt _ _
  first := by
    change (if s.firstTradeAt.isNone then some trade.timestamp else s.firstTradeAt) = _
    rw [booked.first]
    cases trades <;> rfl
  last := by
    rw [List.getLast?_concat]
    rfl

/-- What an event does to the stats of the trader it is about. -/
theorem event (booked : Booked trades s) {indexed : IndexedEvent} {user : Address}
    {change : TraderStats → TraderStats} (changes : indexed.statsChange = some (user, change)) :
    Booked (trades ++ (indexed.trade user).toList) (change s) := by
  obtain ⟨blockNumber, blockTimestamp, txHash, txIndex, logIndex, event⟩ := indexed
  cases event with
  | positionOpened =>
      obtain ⟨rfl, rfl⟩ := Prod.mk.inj (Option.some.inj changes)
      simp only [IndexedEvent.trade, Option.toList_none, List.append_nil]
      exact booked.positions _ _
  | positionClosed positionId owner marketId closedSizeUsd exitPrice realizedPnl isFullClose =>
      obtain ⟨rfl, rfl⟩ := Prod.mk.inj (Option.some.inj changes)
      have counted := booked.count (.close closedSizeUsd realizedPnl blockTimestamp)
      simp only [IndexedEvent.trade, if_true, Option.toList_some]
      cases isFullClose with
      | true => exact counted.positions _ _
      | false => exact counted
  | liquidation positionId owner marketId liquidationPrice penalty liquidator =>
      obtain ⟨rfl, rfl⟩ := Prod.mk.inj (Option.some.inj changes)
      simp only [IndexedEvent.trade, if_true, Option.toList_some]
      exact (booked.count (.liquidation penalty blockTimestamp)).positions _ _
  | _ => exact absurd changes (Option.some_ne_none _).symm

end Booked

theorem trade_eq_none {indexed : IndexedEvent} {trader : Address}
    (other : ∀ change, indexed.statsChange ≠ some (trader, change)) :
    indexed.trade trader = none := by
  obtain ⟨blockNumber, blockTimestamp, txHash, txIndex, logIndex, event⟩ := indexed
  cases event with
  | positionClosed positionId owner =>
      refine if_neg fun same => ?_
      subst same
      exact other _ rfl
  | liquidation positionId owner =>
      refine if_neg fun same => ?_
      subst same
      exact other _ rfl
  | _ => rfl

theorem applyAll_booked (events : List IndexedEvent) {db : PerfDb} (empty : db.toStores = .new)
    (trader : Address) : Booked (trades trader events)
      (((applyAll events db).traderStats.get trader).getD (TraderStats.zero trader)) := by
  refine foldl_holds (fun front (db : PerfDb) => Booked (trades trader front)
    ((db.traderStats.get trader).getD (TraderStats.zero trader))) ?_
    fun front indexed db inside booked => ?_
  · rw [empty]
    have unknown : TraderStatsStore.new.get trader = none := Std.ExtTreeMap.getElem?_empty
    change Booked [] ((TraderStatsStore.new.get trader).getD _)
    rw [unknown]
    exact Booked.zero trader
  · have split : trades trader (front ++ [indexed]) =
        trades trader front ++ (indexed.trade trader).toList := by
      rw [trades, List.filterMap_append, List.filterMap_cons, List.filterMap_nil]
      cases indexed.trade trader <;> rfl
    rw [split, (applyEvent_effects indexed db).traderStats, onTraderStats_eq]
    cases changes : indexed.statsChange with
    | none =>
        rw [trade_eq_none (by simp [changes]), Option.toList_none, List.append_nil]
        exact booked
    | some named =>
        obtain ⟨user, change⟩ := named
        simp only
        rw [TraderStatsStore.get_ensure_update]
        split
        · rename_i same
          subst same
          exact booked.event changes
        · rename_i other
          rw [trade_eq_none (by simp [changes, other]), Option.toList_none, List.append_nil]
          exact booked

/-- Stats that account for every one of the trades. -/
structure Accounted (trades : List Trade) (s : TraderStats) : Prop where
  outcomes : s.totalTrades.toNat =
    s.winCount.toNat + s.lossCount.toNat + s.liquidationCount.toNat
  total : s.totalTrades.toNat = trades.length
  wins : s.winCount.toNat = trades.countP Trade.won
  volume : s.totalVolume.toInt = (trades.map fun trade => trade.volume.toInt).sum
  pnl : s.totalPnl.toInt = (trades.map Trade.realized).sum - (trades.map Trade.penalty).sum
  best : s.bestTradePnl.toInt = (trades.map fun trade => trade.pnl.toInt).foldl max 0
  worst : s.worstTradePnl.toInt = (trades.map fun trade => trade.pnl.toInt).foldl min 0
  first : s.firstTradeAt = trades.head?.map Trade.timestamp
  last : s.lastTradeAt = trades.getLast?.map Trade.timestamp

/-- The sums of the trades fit the type they are kept in. -/
structure Fits (trades : List Trade) : Prop where
  volumeLow : -2 ^ 127 ≤ (trades.map fun trade => trade.volume.toInt).sum
  volumeHigh : (trades.map fun trade => trade.volume.toInt).sum < 2 ^ 127
  pnlLow : -2 ^ 127 ≤ (trades.map Trade.realized).sum - (trades.map Trade.penalty).sum
  pnlHigh : (trades.map Trade.realized).sum - (trades.map Trade.penalty).sum < 2 ^ 127

theorem Booked.accounted {trades : List Trade} {s : TraderStats} (booked : Booked trades s)
    (few : trades.length < 2 ^ 32) (fits : Fits trades) : Accounted trades s := by
  have fitting (p : Trade → Bool) : (UInt32.ofNat (trades.countP p)).toNat = trades.countP p :=
    UInt32.toNat_ofNat_of_lt (Nat.lt_of_le_of_lt List.countP_le_length few)
  have total : s.totalTrades.toNat = trades.length := by
    rw [booked.total]
    exact UInt32.toNat_ofNat_of_lt few
  refine ⟨?_, total, ?_, ?_, ?_, booked.best, booked.worst, booked.first, booked.last⟩
  · rw [total, booked.wins, booked.losses, booked.liquidations, fitting, fitting, fitting]
    exact (Trade.outcomes trades).symm
  · rw [booked.wins, fitting]
  · have wrapped : s.totalVolume =
        I128.ofInt (trades.map fun trade => trade.volume.toInt).sum := by
      rw [booked.volume, ← I128.sum_ofInt, List.map_map]
      exact congrArg List.sum (List.map_congr_left fun trade _ =>
        (I128.ofInt_toInt trade.volume).symm)
    rw [wrapped]
    exact I128.toInt_ofInt fits.volumeLow fits.volumeHigh
  · have wrapped : s.totalPnl =
        I128.ofInt ((trades.map Trade.realized).sum - (trades.map Trade.penalty).sum) := by
      rw [booked.pnl, ← Trade.sum_realized_sub_penalty, ← I128.sum_ofInt, List.map_map]
      exact congrArg List.sum (List.map_congr_left fun trade _ => trade.ofInt_pnl.symm)
    rw [wrapped]
    exact I128.toInt_ofInt fits.pnlLow fits.pnlHigh

/-- The stats of every trader account for each of its trades. -/
theorem trades_accounted (fmt : Wal.Format) (events : List IndexedEvent)
    (few : events.length < 2 ^ 32) (r t : Running) (empty : r.db.toStores = .new)
    (run : runLive fmt (events.map .event) r = .ok () t) (trader : Address)
    (fits : Fits (trades trader events)) (s : TraderStats)
    (known : t.db.traderStats.get trader = some s) : Accounted (trades trader events) s := by
  have booked := applyAll_booked events empty trader
  rw [← runLive_events events run, known] at booked
  exact booked.accounted (Nat.lt_of_le_of_lt (List.length_filterMap_le _ _) few) fits

/-- A trader whose position is closed at a profit in part, and liquidated. -/
theorem trades_accounted_liquidation :
    ∃ db opened t s, PerfDb.open_ Bincode.formats .stored ⟨"data", "wal", 1024, .none⟩ .fresh =
        .ok db opened ∧
      let trader := Vector.replicate 20 1
      let id := Vector.replicate 32 7
      let events : List IndexedEvent :=
        [⟨5, 1700000000, Vector.replicate 32 0, 0, 0, .positionClosed id trader 0 40 1 3 false⟩,
          ⟨6, 1700000012, Vector.replicate 32 0, 0, 0,
            .liquidation id trader 0 1 5 (Vector.replicate 20 4)⟩]
      runLive Bincode.format (events.map .event) (opened.running db) = .ok () t ∧
      t.db.traderStats.get trader = some s ∧ Accounted (trades trader events) s := by
  obtain ⟨db, opened, run, stores, ready⟩ := PerfDb.open_blank Bincode.formats .stored
    ⟨"data", "wal", 1024, .none⟩ Disk.fresh_blank
  let first : IndexedEvent := ⟨5, 1700000000, Vector.replicate 32 0, 0, 0,
    .positionClosed (Vector.replicate 32 7) (Vector.replicate 20 1) 0 40 1 3 false⟩
  let second : IndexedEvent := ⟨6, 1700000012, Vector.replicate 32 0, 0, 0,
    .liquidation (Vector.replicate 32 7) (Vector.replicate 20 1) 0 1 5 (Vector.replicate 20 4)⟩
  obtain ⟨t, live⟩ := runLive_returns Bincode.format ([first, second].map .event) ready
  obtain ⟨s, known⟩ : ∃ s, t.db.traderStats.get (Vector.replicate 20 1) = some s := by
    rw [runLive_events [first, second] live]
    change ∃ s, ((db.applyEvent first).applyEvent second).traderStats.get _ = some s
    rw [(applyEvent_effects second _).traderStats, onTraderStats_eq]
    exact ⟨_, (TraderStatsStore.get_ensure_update _ _ _ _).trans (if_pos rfl)⟩
  have fits : Fits (trades (Vector.replicate 20 1) [first, second]) := by
    constructor <;> decide
  exact ⟨db, opened, t, s, run, live, known, trades_accounted Bincode.format [first, second]
    (by decide) _ t stores live _ fits s known⟩

end Perfdb
