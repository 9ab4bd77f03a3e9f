import Mathlib
import Perfdb.Bisection
import Perfdb.Types

set_option autoImplicit false

/-! Queries of ticks and candles by time. Those of ticks are those of candles on the other
record, so that both are stated over the timestamp of a record. -/

namespace Perfdb

section Queries

variable {α : Type} (stamp : α → UInt64)

/-- Index of the first record with a timestamp `≥ target`. -/
def lowerBound (records : List α) (targetNs : UInt64) : Nat :=
  partitionPoint (fun r => decide (stamp r < targetNs)) records

/-- Index of the first record with a timestamp `> target`. -/
def upperBound (records : List α) (targetNs : UInt64) : Nat :=
  partitionPoint (fun r => decide (stamp r ≤ targetNs)) records

/-- Records in `[start, end)`. -/
def queryRange (records : List α) (startNs endNs : UInt64) : Option (List α) :=
  subslice records (lowerBound stamp records startNs) (lowerBound stamp records endNs)

/-- Records in `[start, end]`. -/
def queryRangeInclusive (records : List α) (startNs endNs : UInt64) : Option (List α) :=
  subslice records (lowerBound stamp records startNs) (upperBound stamp records endNs)

end Queries

def lowerBoundTicks : List PriceTick → UInt64 → Nat := lowerBound PriceTick.timestampNs

def upperBoundTicks : List PriceTick → UInt64 → Nat := upperBound PriceTick.timestampNs

/-- Zero-copy slice of ticks in `[start, end)`. -/
def queryTickRange : List PriceTick → UInt64 → UInt64 → Option (List PriceTick) :=
  queryRange PriceTick.timestampNs

/-- Zero-copy slice of ticks in `[start, end]` (inclusive both ends). -/
def queryTickRangeInclusive : List PriceTick → UInt64 → UInt64 → Option (List PriceTick) :=
  queryRangeInclusive PriceTick.timestampNs

def lowerBoundCandles : List CandleRecord → UInt64 → Nat := lowerBound CandleRecord.timestampNs

def upperBoundCandles : List CandleRecord → UInt64 → Nat := upperBound CandleRecord.timestampNs

/-- Zero-copy slice of candles in `[start, end)`. -/
def queryCandleRange : List CandleRecord → UInt64 → UInt64 → Option (List CandleRecord) :=
  queryRange CandleRecord.timestampNs

/-- Zero-copy slice of candles in `[start, end]` (inclusive both ends). -/
def queryCandleRangeInclusive :
    List CandleRecord → UInt64 → UInt64 → Option (List CandleRecord) :=
  queryRangeInclusive CandleRecord.timestampNs

/-- Find the candle whose bucket contains the given timestamp; the outer `none` stands for a
panic. -/
def findCandleAt (candles : List CandleRecord) (timestampNs : UInt64) :
    Option (Option CandleRecord) :=
  if candles.isEmpty then some none
  else
    let idx := upperBoundCandles candles timestampNs
    if idx = 0 then do
      let first ← candles[0]?
      if first.timestampNs ≤ timestampNs then pure (some first) else pure none
    else do
      let last ← candles[idx - 1]?
      pure (some last)

section Sorted

variable {α : Type} {stamp : α → UInt64} {records : List α} {startNs endNs : UInt64}

def SortedBy (stamp : α → UInt64) (records : List α) : Prop :=
  records.Pairwise fun a b => stamp a ≤ stamp b

theorem SortedBy.before (sorted : SortedBy stamp records) (targetNs : UInt64) :
    Partitioned (fun r => decide (stamp r < targetNs)) records :=
  sorted.imp fun ordered later =>
    decide_eq_true (UInt64.lt_of_le_of_lt ordered (of_decide_eq_true later))

theorem SortedBy.until (sorted : SortedBy stamp records) (targetNs : UInt64) :
    Partitioned (fun r => decide (stamp r ≤ targetNs)) records :=
  sorted.imp fun ordered later =>
    decide_eq_true (UInt64.le_trans ordered (of_decide_eq_true later))

theorem subslice_partitionPoint {p q : α → Bool} (first : Partitioned p records)
    (second : Partitioned q records) (within : ∀ r, p r = true → q r = true) :
    subslice records (partitionPoint p records) (partitionPoint q records) =
      some (records.filter fun r => !p r && q r) := by
  have ordered : partitionPoint p records ≤ partitionPoint q records := by
    rw [first.partitionPoint_eq, second.partitionPoint_eq]
    exact (List.monotone_filter_right records within).length_le
  have inside : partitionPoint q records ≤ records.length := by
    rw [second.partitionPoint_eq]
    exact List.length_filter_le q records
  have front : (records.take (partitionPoint q records)).filter p = records.filter p := by
    rw [second.take_partitionPoint, List.filter_filter]
    refine List.filter_congr fun r _ => ?_
    cases holds : p r with
    | true => simp [within r holds]
    | false => rfl
  have parts : Partitioned p (records.take (partitionPoint q records)) :=
    first.sublist (List.take_sublist _ _)
  have start : partitionPoint p (records.take (partitionPoint q records)) =
      partitionPoint p records := by
    rw [parts.partitionPoint_eq, front, first.partitionPoint_eq]
  rw [subslice, if_pos ⟨ordered, inside⟩, ← start, parts.drop_partitionPoint,
    second.take_partitionPoint, List.filter_filter]

theorem queryRange_eq (sorted : SortedBy stamp records) (ordered : startNs ≤ endNs) :
    queryRange stamp records startNs endNs =
      some (records.filter fun r => decide (startNs ≤ stamp r ∧ stamp r < endNs)) := by
  rw [queryRange, lowerBound, lowerBound, subslice_partitionPoint (sorted.before _)
    (sorted.before _) fun r earlier =>
      decide_eq_true (UInt64.lt_of_lt_of_le (of_decide_eq_true earlier) ordered)]
  simp only [← decide_not, UInt64.not_lt, ← Bool.decide_and]

theorem queryRangeInclusive_eq (sorted : SortedBy stamp records) (ordered : startNs ≤ endNs) :
    queryRangeInclusive stamp records startNs endNs =
      some (records.filter fun r => decide (startNs ≤ stamp r ∧ stamp r ≤ endNs)) := by
  rw [queryRangeInclusive, lowerBound, upperBound, subslice_partitionPoint (sorted.before _)
    (sorted.until _) fun r earlier =>
      decide_eq_true (UInt64.le_of_lt (UInt64.lt_of_lt_of_le (of_decide_eq_true earlier) ordered))]
  simp only [← decide_not, UInt64.not_lt, ← Bool.decide_and]

theorem findCandleAt_eq {candles : List CandleRecord}
    (sorted : SortedBy CandleRecord.timestampNs candles) (timestampNs : UInt64) :
    findCandleAt candles timestampNs =
      some (candles.filter fun c => decide (c.timestampNs ≤ timestampNs)).getLast? := by
  have parts := sorted.until timestampNs
  have idx : upperBoundCandles candles timestampNs =
      (candles.filter fun c => decide (c.timestampNs ≤ timestampNs)).length :=
    parts.partitionPoint_eq
  have front := parts.split
  unfold findCandleAt
  rw [idx]
  cases candles with
  | nil => rfl
  | cons first candles =>
      rw [if_neg (by simp)]
      simp only [List.length_eq_zero_iff]
      by_cases none : (first :: candles).filter (fun c => decide (c.timestampNs ≤ timestampNs)) = []
      · have later : ¬ first.timestampNs ≤ timestampNs := by
          have outside := List.filter_eq_nil_iff.mp none first List.mem_cons_self
          exact fun earlier => outside (decide_eq_true earlier)
        rw [if_pos none, none]
        simp [later]
      · rw [if_neg none]
        generalize (first :: candles).filter (fun c => decide (c.timestampNs ≤ timestampNs)) =
          found at none front ⊢
        obtain ⟨earlier, last, rfl⟩ := List.eq_nil_or_concat found |>.resolve_left none
        rw [← front, List.concat_eq_append, List.length_append, List.length_singleton,
          Nat.add_sub_cancel, List.append_assoc, List.getElem?_append_right (Nat.le_refl _),
          Nat.sub_self, List.getLast?_append]
        rfl

end Sorted

/-- What the queries find by going through all records. -/
structure LinearReference (ticks : List PriceTick) (candles : List CandleRecord)
    (startNs endNs timestampNs : UInt64) : Prop where
  tickRange : queryTickRange ticks startNs endNs =
    some (ticks.filter fun t => decide (startNs ≤ t.timestampNs ∧ t.timestampNs < endNs))
  tickRangeInclusive : queryTickRangeInclusive ticks startNs endNs =
    some (ticks.filter fun t => decide (startNs ≤ t.timestampNs ∧ t.timestampNs ≤ endNs))
  candleRange : queryCandleRange candles startNs endNs =
    some (candles.filter fun c => decide (startNs ≤ c.timestampNs ∧ c.timestampNs < endNs))
  candleRangeInclusive : queryCandleRangeInclusive candles startNs endNs =
    some (candles.filter fun c => decide (startNs ≤ c.timestampNs ∧ c.timestampNs ≤ endNs))
  candleAt : findCandleAt candles timestampNs =
    some (candles.filter fun c => decide (c.timestampNs ≤ timestampNs)).getLast?

/-- On sorted records the queries return what going through all of them does. -/
theorem queries_linear (ticks : List PriceTick) (candles : List CandleRecord)
    (startNs endNs timestampNs : UInt64) (ordered : startNs ≤ endNs)
    (sortedTicks : SortedBy PriceTick.timestampNs ticks)
    (sortedCandles : SortedBy CandleRecord.timestampNs candles) :
    LinearReference ticks candles startNs endNs timestampNs where
  tickRange := queryRange_eq sortedTicks ordered
  tickRangeInclusive := queryRangeInclusive_eq sortedTicks ordered
  candleRange := queryRange_eq sortedCandles ordered
  candleRangeInclusive := queryRangeInclusive_eq sortedCandles ordered
  candleAt := findCandleAt_eq sortedCandles timestampNs

/-- A tick of the first market at a time. -/
def tickAt (timestampNs : UInt64) : PriceTick := ⟨timestampNs, 0, Vector.replicate 6 0, ⟨0⟩⟩

/-- Ticks with a repeated time, and no candles. -/
theorem queries_linear_repeated :
    LinearReference [tickAt 1, tickAt 2, tickAt 2, tickAt 3] [] 2 3 2 :=
  queries_linear _ _ 2 3 2 (by decide) (by unfold SortedBy; decide) (by unfold SortedBy; decide)

/-- A query slices within bounds, and finds nothing in an empty range. -/
structure Slices {α : Type} (records : List α) (lo hi : Nat) (emptyRange : Prop)
    (result : Option (List α)) : Prop where
  ordered : lo ≤ hi
  within : hi ≤ records.length
  returns : ∃ found, result = some found ∧ (emptyRange → found = [])

theorem slices_iff {α : Type} {p q : α → Bool} {records : List α} {emptyRange : Prop}
    (first : Partitioned p records) (second : Partitioned q records)
    (inverted : emptyRange → ∀ r ∈ records, q r = true → p r = true) :
    Slices records (partitionPoint p records) (partitionPoint q records) emptyRange
        (subslice records (partitionPoint p records) (partitionPoint q records)) ↔
      ∀ r ∈ records, p r = true → q r = true := by
  have inside : partitionPoint q records ≤ records.length := by
    rw [second.partitionPoint_eq]
    exact List.length_filter_le q records
  constructor
  · exact fun slices => (first.partitionPoint_le_iff second).mp slices.ordered
  · intro within
    have ordered := (first.partitionPoint_le_iff second).mpr within
    refine ⟨ordered, inside, _, if_pos ⟨ordered, inside⟩, fun empty => ?_⟩
    have reversed := (second.partitionPoint_le_iff first).mpr (inverted empty)
    rw [List.drop_eq_nil_iff, List.length_take]
    omega

section Inverted

variable {α : Type} {stamp : α → UInt64} {records : List α} (startNs endNs : UInt64)

theorem SortedBy.queryRange_slices (sorted : SortedBy stamp records) :
    Slices records (lowerBound stamp records startNs) (lowerBound stamp records endNs)
        (endNs ≤ startNs) (queryRange stamp records startNs endNs) ↔
      ∀ r ∈ records, ¬ (endNs ≤ stamp r ∧ stamp r < startNs) := by
  refine (slices_iff (sorted.before startNs) (sorted.before endNs)
    fun empty r _ earlier => ?_).trans (forall₂_congr fun r _ => ?_)
  · exact decide_eq_true (UInt64.lt_of_lt_of_le (of_decide_eq_true earlier) empty)
  · rw [decide_eq_true_iff, decide_eq_true_iff, not_and', UInt64.not_le]

theorem SortedBy.queryRangeInclusive_slices (sorted : SortedBy stamp records) :
    Slices records (lowerBound stamp records startNs) (upperBound stamp records endNs)
        (endNs < startNs) (queryRangeInclusive stamp records startNs endNs) ↔
      ∀ r ∈ records, ¬ (endNs < stamp r ∧ stamp r < startNs) := by
  refine (slices_iff (sorted.before startNs) (sorted.until endNs)
    fun empty r _ earlier => ?_).trans (forall₂_congr fun r _ => ?_)
  · exact decide_eq_true (UInt64.lt_of_le_of_lt (of_decide_eq_true earlier) empty)
  · rw [decide_eq_true_iff, decide_eq_true_iff, not_and', UInt64.not_lt]

end Inverted

/-- On sorted records a query panics only for a range whose end lies before its start, with a
record at the end or between the two; the inclusive ones, with a record between the two. -/
theorem queries_slice_iff (ticks : List PriceTick) (candles : List CandleRecord)
    (startNs endNs : UInt64) (sortedTicks : SortedBy PriceTick.timestampNs ticks)
    (sortedCandles : SortedBy CandleRecord.timestampNs candles) :
    (Slices ticks (lowerBoundTicks ticks startNs) (lowerBoundTicks ticks endNs)
        (endNs ≤ startNs) (queryTickRange ticks startNs endNs) ↔
      ∀ t ∈ ticks, ¬ (endNs ≤ t.timestampNs ∧ t.timestampNs < startNs)) ∧
    (Slices ticks (lowerBoundTicks ticks startNs) (upperBoundTicks ticks endNs)
        (endNs < startNs) (queryTickRangeInclusive ticks startNs endNs) ↔
      ∀ t ∈ ticks, ¬ (endNs < t.timestampNs ∧ t.timestampNs < startNs)) ∧
    (Slices candles (lowerBoundCandles candles startNs) (lowerBoundCandles candles endNs)
        (endNs ≤ startNs) (queryCandleRange candles startNs endNs) ↔
      ∀ c ∈ candles, ¬ (endNs ≤ c.timestampNs ∧ c.timestampNs < startNs)) ∧
    (Slices candles (lowerBoundCandles candles startNs) (upperBoundCandles candles endNs)
        (endNs < startNs) (queryCandleRangeInclusive candles startNs endNs) ↔
      ∀ c ∈ candles, ¬ (endNs < c.timestampNs ∧ c.timestampNs < startNs)) :=
  ⟨sortedTicks.queryRange_slices startNs endNs, sortedTicks.queryRangeInclusive_slices startNs endNs,
    sortedCandles.queryRange_slices startNs endNs,
    sortedCandles.queryRangeInclusive_slices startNs endNs⟩

/-- An inverted range behind all ticks. -/
theorem queries_slice_iff_behind :
    (Slices [tickAt 1, tickAt 2] (lowerBoundTicks [tickAt 1, tickAt 2] 7)
        (lowerBoundTicks [tickAt 1, tickAt 2] 5) (5 ≤ 7)
        (queryTickRange [tickAt 1, tickAt 2] 7 5) ↔
      ∀ t ∈ [tickAt 1, tickAt 2], ¬ (5 ≤ t.timestampNs ∧ t.timestampNs < 7)) :=
  (queries_slice_iff [tickAt 1, tickAt 2] [] 7 5 (by unfold SortedBy; decide)
    (by unfold SortedBy; decide)).1

/-- The end of the range lies before its start, and a tick between them. -/
theorem inverted_range_panics :
    SortedBy PriceTick.timestampNs [tickAt 2] ∧ queryTickRange [tickAt 2] 3 1 = none ∧
      queryTickRangeInclusive [tickAt 2] 3 1 = none := by
  refine ⟨by unfold SortedBy; decide, ?_, ?_⟩
  · simp [queryTickRange, queryRange, lowerBound, partitionPoint, bisect, subslice, tickAt]
  · simp [queryTickRangeInclusive, queryRangeInclusive, lowerBound, upperBound, partitionPoint,
      bisect, subslice, tickAt]

end Perfdb
