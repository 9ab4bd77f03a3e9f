import Mathlib
import Perfdb.EventEffects

set_option autoImplicit false

namespace Perfdb

/-- What ends an order: an event, with the data around it in a header, or a call of the
order table. -/
inductive Ending where
  | orderExecuted (header : IndexedEvent) (orderId positionId : Hash) (executionPrice : FixedI128)
  | orderCancelled (header : IndexedEvent) (orderId : Hash) (user : Address)
  | execute (orderId : Hash) (executionPrice : FixedI128) (positionId : Hash)
      (executedAt : UInt64)
  | cancel (orderId : Hash)

namespace Ending

def step (db : PerfDb) : Ending → PerfDb
  | .orderExecuted header orderId positionId executionPrice =>
      db.applyEvent { header with event := .orderExecuted orderId positionId executionPrice }
  | .orderCancelled header orderId user =>
      db.applyEvent { header with event := .orderCancelled orderId user }
  | .execute orderId executionPrice positionId executedAt =>
      { db with orders := (db.orders.execute orderId executionPrice positionId executedAt).2 }
  | .cancel orderId => { db with orders := (db.orders.cancel orderId).2 }

def orderId : Ending → Hash
  | .orderExecuted _ orderId _ _ | .orderCancelled _ orderId _ | .execute orderId _ _ _
  | .cancel orderId => orderId

/-- The execution it records; none if it cancels. -/
def execution : Ending → Option (FixedI128 × Hash × UInt64)
  | .orderExecuted header _ positionId executionPrice =>
      some (executionPrice, positionId, header.blockTimestamp)
  | .execute _ executionPrice positionId executedAt => some (executionPrice, positionId, executedAt)
  | .orderCancelled _ _ _ | .cancel _ => none

/-- What it makes of its order. -/
def change (ending : Ending) (order : Order) : Order :=
  match ending.execution with
  | some (executionPrice, positionId, executedAt) =>
      { order with
        status := .executed
        executionPrice := some executionPrice
        positionId := some positionId
        executedAt := some executedAt }
  | none => { order with status := .cancelled }

/-- An order it reaches after its end has been ended by one like it: cancelled if it cancels,
and executed with the same data if it executes. -/
def Repeats (db : PerfDb) (ending : Ending) : Prop :=
  ∀ order, db.orders.get ending.orderId = some order → order.status ≠ .active →
    match ending.execution with
    | some (executionPrice, positionId, executedAt) => order.status = .executed ∧
        order.executionPrice = some executionPrice ∧ order.positionId = some positionId ∧
        order.executedAt = some executedAt
    | none => order.status = .cancelled

end Ending

structure Order.SameEnd (before after : Order) : Prop where
  status : after.status = before.status
  executionPrice : after.executionPrice = before.executionPrice
  positionId : after.positionId = before.positionId
  executedAt : after.executedAt = before.executedAt

def EndsFinal (db : PerfDb) (endings : List Ending) : Prop :=
  ∀ front later, front ++ later <+: endings → ∀ id order,
    (front.foldl Ending.step db).orders.get id = some order → order.status ≠ .active →
      ∃ after, ((front ++ later).foldl Ending.step db).orders.get id = some after ∧
        order.SameEnd after

theorem OrderTable.get_finish (table : OrderTable) (orderId other : Hash) (f : Order → Order) :
    (table.finish orderId f).2.get other =
      if orderId = other then (table.get orderId).map f else table.get other := by
  rw [finish]
  cases found : table.orders[orderId]? with
  | none =>
      simp only [get, found, Option.map_none]
      split
      · rename_i same
        rw [← same, found]
      · rfl
  | some order =>
      have stored : ∀ changed : OrderTable, changed.orders = table.orders.insert orderId (f order) →
          changed.get other = if orderId = other then (table.get orderId).map f
            else table.get other := by
        intro changed same
        rw [get, same, Table.getElem?_insert, get, found, Option.map_some]
        rfl
      simp only
      split
      · exact stored _ rfl
      · exact stored _ rfl

section Step

variable {db : PerfDb} {ending : Ending} {id : Hash} {order : Order}

/-- An ending changes its own order and no other. -/
theorem Ending.step_get (db : PerfDb) (ending : Ending) (id : Hash) :
    (ending.step db).orders.get id =
      if ending.orderId = id then (db.orders.get id).map ending.change else db.orders.get id := by
  have own (table : OrderTable) (orderId : Hash) (f : Order → Order) :
      (table.finish orderId f).2.get id =
        if orderId = id then (table.get id).map f else table.get id := by
    rw [OrderTable.get_finish]
    split
    · rename_i same
      rw [same]
    · rfl
  cases ending with
  | orderExecuted header orderId positionId executionPrice =>
      change (db.applyEvent _).orders.get id = _
      rw [(applyEvent_effects _ db).orders]
      exact own db.orders orderId _
  | orderCancelled header orderId user =>
      change (db.applyEvent _).orders.get id = _
      rw [(applyEvent_effects _ db).orders]
      exact own db.orders orderId _
  | execute orderId executionPrice positionId executedAt => exact own db.orders orderId _
  | cancel orderId => exact own db.orders orderId _

theorem Ending.step_own (ending : Ending) (found : db.orders.get ending.orderId = some order) :
    (ending.step db).orders.get ending.orderId = some (ending.change order) := by
  rw [step_get, if_pos rfl, found, Option.map_some]

theorem Order.SameEnd.refl (order : Order) : order.SameEnd order := ⟨rfl, rfl, rfl, rfl⟩

theorem Order.SameEnd.trans {a b c : Order} (first : a.SameEnd b) (second : b.SameEnd c) :
    a.SameEnd c :=
  ⟨second.status.trans first.status, second.executionPrice.trans first.executionPrice,
    second.positionId.trans first.positionId, second.executedAt.trans first.executedAt⟩

theorem Ending.repeats_iff : ending.Repeats db ↔
    ∀ id order, db.orders.get id = some order → order.status ≠ .active →
      ∃ after, (ending.step db).orders.get id = some after ∧ order.SameEnd after := by
  constructor
  · intro repeats id order found ended
    rw [step_get]
    by_cases own : ending.orderId = id
    · subst own
      have same := repeats order found ended
      refine ⟨ending.change order, by rw [if_pos rfl, found]; rfl, ?_⟩
      unfold change
      cases executed : ending.execution with
      | none =>
          rw [executed] at same
          exact ⟨same.symm, rfl, rfl, rfl⟩
      | some data =>
          obtain ⟨executionPrice, positionId, executedAt⟩ := data
          rw [executed] at same
          obtain ⟨status, price, position, time⟩ := same
          exact ⟨status.symm, price.symm, position.symm, time.symm⟩
    · exact ⟨order, by rw [if_neg own, found], Order.SameEnd.refl order⟩
  · intro kept order found ended
    obtain ⟨after, stored, status, price, position, time⟩ := kept _ order found ended
    rw [step_get, if_pos rfl, found] at stored
    obtain rfl := Option.some.inj stored
    unfold change at status price position time
    cases executed : ending.execution with
    | none =>
        rw [executed] at status
        exact status.symm
    | some data =>
        obtain ⟨executionPrice, positionId, executedAt⟩ := data
        rw [executed] at status price position time
        exact ⟨status.symm, price.symm, position.symm, time.symm⟩

end Step

/-- Orders stay as they ended exactly when each ending that reaches one repeats its end. -/
theorem order_end_final_iff (db : PerfDb) (endings : List Ending) :
    EndsFinal db endings ↔
      ∀ front ending, front ++ [ending] <+: endings →
        ending.Repeats (front.foldl Ending.step db) := by
  constructor
  · intro final front ending inside
    rw [Ending.repeats_iff]
    intro id order found ended
    have kept := final front [ending] inside id order found ended
    rwa [List.foldl_append] at kept
  · intro repeats front later
    induction later using List.reverseRecOn with
    | nil =>
        intro inside id order found ended
        rw [List.append_nil]
        exact ⟨order, found, Order.SameEnd.refl order⟩
    | append_singleton later ending ih =>
        intro inside id order found ended
        rw [← List.append_assoc] at inside ⊢
        obtain ⟨middle, stored, same⟩ :=
          ih ((List.prefix_append _ _).trans inside) id order found ended
        obtain ⟨after, last, again⟩ := Ending.repeats_iff.mp (repeats _ ending inside) id middle
          stored (same.status ▸ ended)
        rw [List.foldl_append]
        exact ⟨after, last, same.trans again⟩

def restingOrder : Order where
  orderId := Vector.replicate 32 1
  userAddress := Vector.replicate 20 1
  marketId := 0
  isLong := true
  orderType := .limit
  triggerPrice := 100
  limitPrice := none
  sizeUsd := 100
  leverage := 0
  collateralToken := Vector.replicate 20 0
  collateralAmount := 0
  status := .active
  executionPrice := none
  positionId := none
  txHash := Vector.replicate 32 0
  blockNumber := 1
  createdAt := 1700000000
  executedAt := none

/-- An executed order is cancelled by a late message. -/
theorem late_cancel :
    ¬ EndsFinal (.ofStores { Stores.new with orders := OrderTable.new.insert restingOrder })
      [.execute restingOrder.orderId 100 (Vector.replicate 32 2) 1700000001,
        .cancel restingOrder.orderId] := by
  intro final
  have stored : (OrderTable.new.insert restingOrder).get restingOrder.orderId =
      some restingOrder := by
    rw [OrderTable.get, OrderTable.insert, Table.getElem?_insert, if_pos rfl]
  have start : (PerfDb.ofStores { Stores.new with
      orders := OrderTable.new.insert restingOrder }).orders.get restingOrder.orderId =
      some restingOrder := stored
  have executed := Ending.step_own (.execute restingOrder.orderId 100 (Vector.replicate 32 2)
    1700000001) start
  have cancelled := Ending.step_own (.cancel restingOrder.orderId) executed
  obtain ⟨after, found, same⟩ := final [_] [_] (List.prefix_refl _) _ _ executed
    (by simp [Ending.change, Ending.execution])
  obtain rfl := Option.some.inj (cancelled.symm.trans found)
  exact absurd same.status (by simp [Ending.change, Ending.execution])

end Perfdb
