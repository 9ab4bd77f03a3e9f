import Mathlib
import Perfdb.EventEffects
import Perfdb.OrderIndexes

set_option autoImplicit false

namespace Perfdb

/-- What an event does to one level of a book. -/
inductive LevelChange where
  | keep
  | rests (orderId : Hash)
  | leaves (orderId : Hash)

namespace LevelChange

def orderId : LevelChange → Option Hash
  | keep => none
  | rests orderId | leaves orderId => some orderId

/-- A level that is emptied is dropped. -/
def apply (change : LevelChange) (level : Option (Multiset Hash)) : Option (Multiset Hash) :=
  match change with
  | keep => level
  | rests orderId => some (level.getD 0 + {orderId})
  | leaves orderId => level.bind fun ids =>
      let kept := ids.filter (· ≠ orderId)
      if kept = 0 then none else some kept

theorem leaves_getD (orderId : Hash) (level : Option (Multiset Hash)) :
    ((leaves orderId).apply level).getD 0 = (level.getD 0).filter (· ≠ orderId) := by
  cases level with
  | none => rfl
  | some ids =>
      simp only [apply, Option.bind_some, Option.getD_some]
      split
      · rename_i emptied
        exact emptied.symm
      · rfl

theorem rests_leaves {placed gone : Hash} (apart : placed ≠ gone)
    (level : Option (Multiset Hash)) : (leaves gone).apply ((rests placed).apply level) =
      (rests placed).apply ((leaves gone).apply level) := by
  have kept : (level.getD 0 + {placed}).filter (· ≠ gone) =
      (level.getD 0).filter (· ≠ gone) + {placed} := by
    rw [Multiset.filter_add, Multiset.filter_singleton, if_pos apart]
  have stays : (level.getD 0).filter (· ≠ gone) + {placed} ≠ 0 := by simp
  change (if _ = (0 : Multiset Hash) then none else some _) = some _
  rw [kept, if_neg stays, leaves_getD]

theorem leaves_leaves (first second : Hash) (level : Option (Multiset Hash)) :
    (leaves second).apply ((leaves first).apply level) =
      level.bind fun ids =>
        if (ids.filter (· ≠ first)).filter (· ≠ second) = 0 then none
        else some ((ids.filter (· ≠ first)).filter (· ≠ second)) := by
  cases level with
  | none => rfl
  | some ids =>
      simp only [apply, Option.bind_some]
      by_cases emptied : ids.filter (· ≠ first) = 0
      · simp only [emptied, if_true, Option.bind_none, Multiset.filter_zero]
      · simp only [emptied, if_false, Option.bind_some]

theorem apply_comm {one other : LevelChange}
    (apart : ∀ id, one.orderId = some id → other.orderId ≠ some id)
    (level : Option (Multiset Hash)) :
    other.apply (one.apply level) = one.apply (other.apply level) := by
  cases one with
  | keep => rfl
  | rests first =>
      cases other with
      | keep => rfl
      | rests second => exact congrArg some (add_right_comm _ _ _)
      | leaves second => exact rests_leaves (fun same => apart first rfl (congrArg some same.symm)) _
  | leaves first =>
      cases other with
      | keep => rfl
      | rests second =>
          exact (rests_leaves (fun same => apart first rfl (congrArg some same)) _).symm
      | leaves second =>
          rw [leaves_leaves, leaves_leaves]
          refine congrArg level.bind (funext fun ids => ?_)
          rw [Multiset.filter_comm]

end LevelChange

/-- The order ids at a price of one side, as a multiset; an absent level is `none`. -/
def Orderbook.entry (book : Orderbook) (isLong : Bool) (price : FixedI128) :
    Option (Multiset Hash) :=
  ((if isLong then book.bids else book.asks)[price]?).map Multiset.ofList

def OrderTable.levelSet (table : OrderTable) (marketId : MarketId) (isLong : Bool)
    (price : FixedI128) : Option (Multiset Hash) :=
  (table.orderbook marketId).bind fun book => book.entry isLong price

section Levels

variable (isLong long : Bool) (price other : FixedI128) (orderId : Hash)

theorem BookSide.entry_add (side : BookSide) :
    ((side.add price orderId)[other]?).map Multiset.ofList =
      if price = other then
        (LevelChange.rests orderId).apply (side[other]?.map Multiset.ofList)
      else side[other]?.map Multiset.ofList := by
  simp only [BookSide.add, Table.getElem?_alter]
  split
  · rename_i same
    subst same
    cases side[price]? with
    | none => rfl
    | some ids => exact congrArg some (Multiset.coe_add ids [orderId]).symm
  · rfl

theorem BookSide.entry_remove (side : BookSide) :
    ((side.remove price orderId)[other]?).map Multiset.ofList =
      if price = other then
        (LevelChange.leaves orderId).apply (side[other]?.map Multiset.ofList)
      else side[other]?.map Multiset.ofList := by
  simp only [BookSide.remove, Table.getElem?_alter]
  split
  · rename_i same
    subst same
    cases side[price]? with
    | none => rfl
    | some ids =>
        simp only [Option.bind_some, Option.map_some, LevelChange.apply, Multiset.filter_coe,
          Multiset.coe_eq_zero, List.isEmpty_iff]
        split <;> rfl
  · rfl

theorem Orderbook.entry_add (book : Orderbook) :
    (if isLong then book.addBid price orderId else book.addAsk price orderId).entry long other =
      if isLong = long ∧ price = other then
        (LevelChange.rests orderId).apply (book.entry long other)
      else book.entry long other := by
  cases isLong <;> cases long <;>
    simp [Orderbook.entry, Orderbook.addBid, Orderbook.addAsk, BookSide.entry_add]

theorem Orderbook.entry_remove (book : Orderbook) :
    (if isLong then book.removeBid price orderId else book.removeAsk price orderId).entry long
        other =
      if isLong = long ∧ price = other then
        (LevelChange.leaves orderId).apply (book.entry long other)
      else book.entry long other := by
  cases isLong <;> cases long <;>
    simp [Orderbook.entry, Orderbook.removeBid, Orderbook.removeAsk, BookSide.entry_remove]

theorem levelSet_modifySlot (table : OrderTable) (marketId market : MarketId)
    (f : Orderbook → Orderbook) :
    { table with orderbooks := modifySlot table.orderbooks market.toNat f }.levelSet marketId long
        other =
      if market = marketId then
        (table.orderbook marketId).bind fun book => (f book).entry long other
      else table.levelSet marketId long other := by
  simp only [OrderTable.levelSet, OrderTable.orderbook, getElem?_modifySlot, UInt16.toNat_inj]
  split
  · rename_i same
    rw [Option.bind_map]
    rfl
  · rfl

end Levels

def IndexedEvent.levelChange (indexed : IndexedEvent) (table : OrderTable) (marketId : MarketId)
    (isLong : Bool) (price : FixedI128) : LevelChange :=
  match indexed.event with
  | .orderPlaced orderId _ market _ long triggerPrice _ =>
      if market = marketId ∧ long = isLong ∧ triggerPrice = price ∧ marketId.toNat < marketCount then
        .rests orderId
      else .keep
  | .orderExecuted orderId _ _ | .orderCancelled orderId _ =>
      match table.get orderId with
      | some order => if order.RestsAt marketId isLong price then .leaves orderId else .keep
      | none => .keep
  | _ => .keep

section Levels

variable (table : OrderTable) (marketId : MarketId) (isLong : Bool) (price : FixedI128)

theorem finish_levelSet (orderId : Hash) {f : Order → Order}
    (place : ∀ order, (f order).marketId = order.marketId ∧ (f order).isLong = order.isLong ∧
      (f order).triggerPrice = order.triggerPrice) :
    (table.finish orderId f).2.levelSet marketId isLong price =
      (match table.get orderId with
        | some order =>
            if order.RestsAt marketId isLong price then LevelChange.leaves orderId else .keep
        | none => .keep).apply (table.levelSet marketId isLong price) := by
  rw [OrderTable.finish, OrderTable.get]
  cases table.orders[orderId]? with
  | none => rfl
  | some order =>
      obtain ⟨market, side, trigger⟩ := place order
      simp only
      by_cases active : order.status = .active
      · rw [if_pos active, OrderTable.removeFromOrderbook, market, side, trigger,
          levelSet_modifySlot]
        simp only [Order.RestsAt, active, true_and]
        by_cases here : order.marketId = marketId
        · simp only [here, if_true, true_and, Orderbook.entry_remove]
          by_cases there : order.isLong = isLong ∧ order.triggerPrice = price
          · simp only [there, and_self, if_true]
            rw [OrderTable.levelSet]
            change (table.orderbook marketId).bind _ = _
            cases table.orderbook marketId <;> rfl
          · simp only [there, if_false]
            rfl
        · simp only [here, if_false, false_and]
          rfl
      · rw [if_neg active, if_neg fun rests => active rests.1]
        rfl

/-- One event changes each level in at most one order. -/
theorem onOrders_levelSet (indexed : IndexedEvent) :
    (indexed.onOrders table).levelSet marketId isLong price =
      (indexed.levelChange table marketId isLong price).apply
        (table.levelSet marketId isLong price) := by
  obtain ⟨blockNumber, blockTimestamp, txHash, txIndex, logIndex, event⟩ := indexed
  cases event with
  | orderPlaced orderId user market orderType long triggerPrice sizeUsd =>
      change { table with orderbooks := (modifySlot table.orderbooks market.toNat (fun book =>
        if long then book.addBid triggerPrice orderId
        else book.addAsk triggerPrice orderId)) }.levelSet marketId isLong price = _
      rw [levelSet_modifySlot, IndexedEvent.levelChange]
      simp only [Orderbook.entry_add]
      by_cases here : market = marketId
      · by_cases there : long = isLong ∧ triggerPrice = price
        · by_cases inside : marketId.toNat < marketCount
          · simp only [here, there, inside, and_self, if_true]
            simp [OrderTable.levelSet, OrderTable.orderbook, Vector.getElem?_eq_getElem inside,
              LevelChange.apply]
          · have none : table.orderbook marketId = none :=
              Vector.getElem?_eq_none (Nat.le_of_not_lt inside)
            simp [here, there, inside, none, OrderTable.levelSet, LevelChange.apply]
        · rw [if_pos here, if_neg fun all => there ⟨all.2.1, all.2.2.1⟩]
          simp only [there, if_false]
          rfl
      · rw [if_neg here, if_neg fun all => here all.1]
        rfl
  | orderExecuted orderId positionId executionPrice =>
      exact finish_levelSet table marketId isLong price orderId fun _ => ⟨rfl, rfl, rfl⟩
  | orderCancelled orderId =>
      exact finish_levelSet table marketId isLong price orderId fun _ => ⟨rfl, rfl, rfl⟩
  | _ => rfl

end Levels

end Perfdb
