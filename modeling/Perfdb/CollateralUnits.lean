import Mathlib
import Perfdb.Available
import Perfdb.Recovery

set_option autoImplicit false

namespace Perfdb

def oneUnit : Int := 10 ^ 18

namespace I128

/-- Division of what is not negative rounds down and does not overflow. -/
theorem toInt_div {x y : I128} (nonneg : 0 ≤ x.toInt) (positive : 0 < y.toInt) :
    (x / y).toInt = x.toInt / y.toInt := by
  have above := x.toInt_bounds
  have low : 0 ≤ x.toInt / y.toInt := Int.ediv_nonneg nonneg positive.le
  have high : x.toInt / y.toInt ≤ x.toInt := Int.ediv_le_self _ nonneg
  change (x.bits.sdiv y.bits).toInt = _
  rw [BitVec.toInt_sdiv]
  change (x.toInt.tdiv y.toInt).bmod _ = _
  rw [Int.tdiv_eq_ediv_of_nonneg nonneg]
  apply Int.bmod_eq_of_le
  · simp only [Nat.reducePow]
    omega
  · simp only [Nat.reducePow]
    omega

end I128

/-- The quotient of two fixed-point numbers and that of their numerators agree below one only. -/
theorem unscaled_eq_iff {size leverage : Int} (nonneg : 0 ≤ size) (unit : oneUnit ≤ leverage) :
    size / leverage = size * oneUnit / leverage ↔ size * oneUnit < leverage := by
  have positive : 0 < leverage := by
    unfold oneUnit at unit
    omega
  constructor
  · intro same
    by_contra large
    have scaled : 0 ≤ size * oneUnit := Int.mul_nonneg nonneg (by decide)
    have one : 1 ≤ size * oneUnit / leverage :=
      (Int.le_ediv_iff_mul_le positive).mpr (by omega)
    have below : size / leverage * leverage ≤ size := Int.ediv_mul_le _ positive.ne'
    have whole : size / leverage * oneUnit ≤ size * oneUnit / leverage := by
      rw [Int.le_ediv_iff_mul_le positive, Int.mul_right_comm]
      exact Int.mul_le_mul_of_nonneg_right below (by decide)
    rw [← same] at whole one
    unfold oneUnit at whole
    omega
  · intro small
    have less : size < leverage := by
      unfold oneUnit at small
      omega
    rw [Int.ediv_eq_zero_of_lt nonneg less, Int.ediv_eq_zero_of_lt
      (Int.mul_nonneg nonneg (by decide)) small]

/-- The position is stored, and its collateral is what its size is worth at the leverage. -/
def PositionTable.BooksInUnit (table : PositionTable) (positionId : Hash)
    (sizeUsd leverage : FixedI128) : Prop :=
  ∃ p, table.get positionId = some p ∧
    p.collateralUsd.toInt = sizeUsd.toInt * oneUnit / leverage.toInt

section Booked

variable {indexed : IndexedEvent} {positionId : Hash} {user token : Address} {marketId : MarketId}
  {isLong : Bool} {sizeUsd leverage entryPrice amount : FixedI128}
  (opened : indexed.event = .positionOpened positionId user marketId isLong sizeUsd leverage
    entryPrice token amount)

include opened

theorem applyEvent_collateral (db : PerfDb) :
    ((db.applyEvent indexed).positions.get positionId).map Position.collateralUsd =
      some (sizeUsd / max leverage 1) := by
  simp [PerfDb.applyEvent, opened, PositionTable.get_insert]

theorem replayEvent_collateral (stores : Stores) :
    ((replayEvent indexed stores).positions.get positionId).map Position.collateralUsd =
      some (sizeUsd / max leverage 1) := by
  simp [replayEvent, opened, PositionTable.get_insert]

end Booked

theorem booksInUnit_iff {table : PositionTable} {positionId : Hash} {sizeUsd leverage : FixedI128}
    (unit : oneUnit ≤ leverage.toInt) (nonneg : 0 ≤ sizeUsd.toInt)
    (stored : (table.get positionId).map Position.collateralUsd = some (sizeUsd / max leverage 1)) :
    table.BooksInUnit positionId sizeUsd leverage ↔ sizeUsd.toInt * oneUnit < leverage.toInt := by
  have positive : 0 < leverage.toInt := by
    unfold oneUnit at unit
    omega
  have guard : max leverage 1 = leverage := I128.max_eq_left (by
    change (1 : Int) ≤ _
    omega)
  obtain ⟨p, found, collateral⟩ := Option.map_eq_some_iff.mp stored
  rw [← unscaled_eq_iff nonneg unit, ← I128.toInt_div nonneg positive, ← guard, ← collateral, guard]
  constructor
  · rintro ⟨other, again, same⟩
    rwa [← Option.some.inj (found.symm.trans again)] at same
  · exact fun same => ⟨p, found, same⟩

/-- The collateral of an opened position is in the unit of its size, live and replayed, exactly
when it is worth less than the smallest number there is. -/
theorem collateral_units_iff {indexed : IndexedEvent} {positionId : Hash} {user token : Address}
    {marketId : MarketId} {isLong : Bool} {sizeUsd leverage entryPrice amount : FixedI128}
    (opened : indexed.event = .positionOpened positionId user marketId isLong sizeUsd leverage
      entryPrice token amount)
    (unit : oneUnit ≤ leverage.toInt) (nonneg : 0 ≤ sizeUsd.toInt) :
    (∀ fmt r t, PerfDb.processEvent fmt indexed r = .ok () t →
      (t.db.positions.BooksInUnit positionId sizeUsd leverage ↔
        sizeUsd.toInt * oneUnit < leverage.toInt)) ∧
      ∀ snapBlock stores, snapBlock < indexed.blockNumber →
        ((replayWalEntry snapBlock (.indexedEvent indexed) stores).positions.BooksInUnit positionId
          sizeUsd leverage ↔ sizeUsd.toInt * oneUnit < leverage.toInt) := by
  constructor
  · intro fmt r t run
    obtain ⟨s, _, rfl⟩ := PerfDb.processEvent_ok run
    exact booksInUnit_iff unit nonneg (applyEvent_collateral opened _)
  · intro snapBlock stores later
    have behind : ¬ indexed.blockNumber ≤ snapBlock := by
      rw [UInt64.not_le]
      exact later
    rw [replayWalEntry, if_neg behind]
    exact booksInUnit_iff unit nonneg (replayEvent_collateral opened _)

def thousandAtTen : IndexedEvent :=
  ⟨5, 1700000000, Vector.replicate 32 0, 0, 0,
    .positionOpened (Vector.replicate 32 1) (Vector.replicate 20 1) 0 true (.ofInt (1000 * oneUnit))
      (.ofInt (10 * oneUnit)) 0 (Vector.replicate 20 2) 0⟩

theorem collateral_units_iff_thousand :
    (∀ fmt r t, PerfDb.processEvent fmt thousandAtTen r = .ok () t →
      (t.db.positions.BooksInUnit (Vector.replicate 32 1) (.ofInt (1000 * oneUnit))
          (.ofInt (10 * oneUnit)) ↔
        (I128.ofInt (1000 * oneUnit)).toInt * oneUnit < (I128.ofInt (10 * oneUnit)).toInt)) ∧
      ∀ snapBlock stores, snapBlock < thousandAtTen.blockNumber →
        ((replayWalEntry snapBlock (.indexedEvent thousandAtTen) stores).positions.BooksInUnit
            (Vector.replicate 32 1) (.ofInt (1000 * oneUnit)) (.ofInt (10 * oneUnit)) ↔
          (I128.ofInt (1000 * oneUnit)).toInt * oneUnit < (I128.ofInt (10 * oneUnit)).toInt) :=
  collateral_units_iff (show thousandAtTen.event = _ from rfl) (by decide) (by decide)

/-- It is booked with a collateral of a hundred of the smallest numbers, where a hundred whole
units belong. -/
theorem thousand_unscaled :
    (∃ db opened r, PerfDb.open_ Bincode.formats .stored ⟨"data", "wal", 1024, .none⟩ .fresh =
        .ok db opened ∧
      PerfDb.processEvent Bincode.format thousandAtTen (opened.running db) = .ok () r ∧
      (r.db.positions.get (Vector.replicate 32 1)).map Position.collateralUsd = some 100 ∧
      ¬ r.db.positions.BooksInUnit (Vector.replicate 32 1) (.ofInt (1000 * oneUnit))
        (.ofInt (10 * oneUnit))) ∧
      ¬ (replayWalEntry 0 (.indexedEvent thousandAtTen) .new).positions.BooksInUnit
        (Vector.replicate 32 1) (.ofInt (1000 * oneUnit)) (.ofInt (10 * oneUnit)) := by
  have wrong (table : PositionTable) (stored : (table.get (Vector.replicate 32 1)).map
      Position.collateralUsd = some 100) : ¬ table.BooksInUnit (Vector.replicate 32 1)
        (.ofInt (1000 * oneUnit)) (.ofInt (10 * oneUnit)) := by
    rintro ⟨p, found, same⟩
    rw [found, Option.map_some, Option.some.injEq] at stored
    rw [stored] at same
    exact absurd same (by decide)
  obtain ⟨db, opened, run, _, follows⟩ := follows_blank Bincode.formats .stored
    ⟨"data", "wal", 1024, .none⟩ Disk.fresh_blank
  obtain ⟨s, logged, _⟩ := follows.logged.ready.logs Bincode.format (.indexedEvent thousandAtTen)
  obtain ⟨r, processed, _, _, _, stores⟩ := PerfDb.processEvent_of_log logged
  have quotient : (I128.ofInt (1000 * oneUnit)) / max (I128.ofInt (10 * oneUnit)) 1 = 100 := by
    decide
  have live : (r.db.positions.get (Vector.replicate 32 1)).map Position.collateralUsd =
      some 100 := by
    rw [← quotient, stores]
    exact applyEvent_collateral (show thousandAtTen.event = _ from rfl) _
  have replayed := replayEvent_collateral (show thousandAtTen.event = _ from rfl) .new
  rw [quotient] at replayed
  exact ⟨⟨db, opened, r, run, processed, live, wrong _ live⟩, wrong _ replayed⟩

end Perfdb
