import Mathlib
import Perfdb.Histories
import Perfdb.Orders

set_option autoImplicit false

namespace Perfdb

inductive OrderCall where
  | insert (order : Order)
  | cancel (orderId : Hash)
  | execute (orderId : Hash) (executionPrice : FixedI128) (positionId : Hash)
      (executedAt : UInt64)
  | remove (orderId : Hash)

def OrderCall.run (table : OrderTable) : OrderCall → OrderTable
  | .insert order => table.insert order
  | .cancel orderId => (table.cancel orderId).2
  | .execute orderId executionPrice positionId executedAt =>
      (table.execute orderId executionPrice positionId executedAt).2
  | .remove orderId => (table.remove orderId).2

/-- An order that is replaced is on no book, and its replacement is of the same user. -/
def OrderCall.Keeps (table : OrderTable) : OrderCall → Prop
  | .insert order => ∀ old, table.get order.orderId = some old →
      old.userAddress = order.userAddress ∧
        ¬ (old.status = .active ∧ old.marketId.toNat < marketCount)
  | .cancel _ | .execute _ _ _ _ | .remove _ => True

/-- The ids of one price, on the bids for long orders and the asks for short ones. -/
def Orderbook.level (book : Orderbook) (isLong : Bool) (price : FixedI128) : List Hash :=
  ((if isLong then book.bids else book.asks)[price]?).getD []

def Order.RestsAt (marketId : MarketId) (isLong : Bool) (price : FixedI128) (order : Order) :
    Prop :=
  order.status = .active ∧ order.marketId = marketId ∧ order.isLong = isLong ∧
    order.triggerPrice = price

instance (marketId : MarketId) (isLong : Bool) (price : FixedI128) :
    DecidablePred (Order.RestsAt marketId isLong price) := fun order =>
  inferInstanceAs (Decidable (order.status = .active ∧ order.marketId = marketId ∧
    order.isLong = isLong ∧ order.triggerPrice = price))

section Books

variable (side : BookSide) (price other : FixedI128) (id : Hash) (isLong long : Bool)

theorem BookSide.getD_add : ((side.add price id)[other]?).getD [] =
    if price = other then (side[other]?).getD [] ++ [id] else (side[other]?).getD [] := by
  simp only [BookSide.add, Table.getElem?_alter]
  split
  · rename_i same
    subst same
    rfl
  · rfl

theorem BookSide.getD_remove : ((side.remove price id)[other]?).getD [] =
    if price = other then ((side[other]?).getD []).filter (· ≠ id)
    else (side[other]?).getD [] := by
  simp only [BookSide.remove, Table.getElem?_alter]
  split
  · rename_i same
    subst same
    cases side[price]? with
    | none => rfl
    | some ids =>
        simp only [Option.bind_some, Option.getD_some]
        split
        · rename_i emptied
          exact (List.isEmpty_iff.mp emptied).symm
        · rfl
  · rfl

theorem Orderbook.level_add (book : Orderbook) :
    (if isLong then book.addBid price id else book.addAsk price id).level long other =
      if isLong = long ∧ price = other then book.level long other ++ [id]
      else book.level long other := by
  cases isLong <;> cases long <;>
    simp [Orderbook.level, Orderbook.addBid, Orderbook.addAsk, BookSide.getD_add]

theorem Orderbook.level_remove (book : Orderbook) :
    (if isLong then book.removeBid price id else book.removeAsk price id).level long other =
      if isLong = long ∧ price = other then (book.level long other).filter (· ≠ id)
      else book.level long other := by
  cases isLong <;> cases long <;>
    simp [Orderbook.level, Orderbook.removeBid, Orderbook.removeAsk, BookSide.getD_remove]

end Books

namespace OrderTable

/-- The ids resting at a price of a market. -/
def level (table : OrderTable) (marketId : MarketId) (isLong : Bool) (price : FixedI128) :
    List Hash :=
  ((table.orderbook marketId).map fun book => book.level isLong price).getD []

/-- The level of every valid market holds the ids of the active orders that belong there,
each once. -/
def Levelled (table : OrderTable) : Prop :=
  ∀ marketId, marketId.toNat < marketCount → ∀ isLong price,
    (table.level marketId isLong price).Nodup ∧
      ∀ id, id ∈ table.level marketId isLong price ↔
        ∃ order, table.get id = some order ∧ order.RestsAt marketId isLong price

/-- Books and lookups by user are exact. -/
structure Exact (table : OrderTable) : Prop where
  levels : table.Levelled
  users : ∀ order user, (table.allByUser order user).Perm
    ((table.all order).filter fun o => o.userAddress = user)

/-- The books are exact, and the index lists each order under its user only. -/
structure Mirrored (table : OrderTable) : Prop where
  levels : table.Levelled
  users : Table.Mirrors Order.userAddress table.byUser table.orders

section Levels

variable (table : OrderTable) (marketId : MarketId) (isLong : Bool) (price : FixedI128)

theorem level_modifySlot (other : MarketId) (f : Orderbook → Orderbook)
    (inside : marketId.toNat < marketCount) :
    { table with orderbooks := modifySlot table.orderbooks other.toNat f }.level marketId isLong
        price =
      if other = marketId then (f table.orderbooks[marketId.toNat]).level isLong price
      else table.level marketId isLong price := by
  simp only [level, orderbook, Vector.getElem?_eq_getElem inside, getElem_modifySlot,
    UInt16.toNat_inj, Option.map_some, Option.getD_some]
  split <;> rfl

theorem level_eq (inside : marketId.toNat < marketCount) : table.level marketId isLong price =
    table.orderbooks[marketId.toNat].level isLong price := by
  simp [level, orderbook, Vector.getElem?_eq_getElem inside]

theorem level_insert (order : Order) (inside : marketId.toNat < marketCount) :
    (table.insert order).level marketId isLong price =
      if order.RestsAt marketId isLong price then
        table.level marketId isLong price ++ [order.orderId]
      else table.level marketId isLong price := by
  by_cases active : order.status = .active
  · have book : (table.insert order).level marketId isLong price =
        { table with orderbooks := modifySlot table.orderbooks order.marketId.toNat fun book =>
            if order.isLong then book.addBid order.triggerPrice order.orderId
            else book.addAsk order.triggerPrice order.orderId }.level marketId isLong price := by
      simp only [level, orderbook, insert, active, if_true]
    rw [book, level_modifySlot _ _ _ _ _ _ inside, Orderbook.level_add,
      ← level_eq table marketId isLong price inside]
    simp only [Order.RestsAt, active, true_and]
    by_cases market : order.marketId = marketId <;> simp [market]
  · have book : (table.insert order).level marketId isLong price =
        table.level marketId isLong price := by
      simp only [level, orderbook, insert, active, if_false]
    rw [book, if_neg fun rests => active rests.1]

theorem level_removeFromOrderbook (order : Order) (active : order.status = .active)
    (id : Hash) (inside : marketId.toNat < marketCount) :
    (table.removeFromOrderbook order.marketId order.isLong order.triggerPrice id).level marketId
        isLong price =
      if order.RestsAt marketId isLong price then
        (table.level marketId isLong price).filter (· ≠ id)
      else table.level marketId isLong price := by
  rw [removeFromOrderbook, level_modifySlot _ _ _ _ _ _ inside, Orderbook.level_remove,
    ← level_eq table marketId isLong price inside]
  simp only [Order.RestsAt, active, true_and]
  by_cases market : order.marketId = marketId <;> simp [market]

end Levels

namespace Mirrored

variable {table : OrderTable}

theorem new : OrderTable.new.Mirrored := by
  refine ⟨fun marketId inside isLong price => ?_, Table.Mirrors.empty _⟩
  have level : OrderTable.new.level marketId isLong price = [] := by
    rw [level_eq _ _ _ _ inside]
    cases isLong <;> simp [OrderTable.new, Orderbook.level, Orderbook.new]
  have unknown (id : Hash) : OrderTable.new.get id = none := Std.ExtTreeMap.getElem?_empty
  simp [level, unknown]

theorem exact (mirrored : table.Mirrored) : table.Exact :=
  ⟨mirrored.levels, fun order user => Table.collect_perm order mirrored.users user⟩

theorem insert (mirrored : table.Mirrored) {order : Order}
    (keeps : (OrderCall.insert order).Keeps table) : (table.insert order).Mirrored := by
  refine ⟨fun marketId inside isLong price => ?_,
    mirrored.users.insert order.orderId order fun old found => (keeps old found).1⟩
  obtain ⟨nodup, members⟩ := mirrored.levels marketId inside isLong price
  have absent : order.orderId ∉ table.level marketId isLong price := by
    intro listed
    obtain ⟨old, found, rests⟩ := (members _).mp listed
    exact (keeps old found).2 ⟨rests.1, rests.2.1 ▸ inside⟩
  have get (id : Hash) : (table.insert order).get id =
      if order.orderId = id then some order else table.get id := Table.getElem?_insert _ _ _ _
  rw [level_insert _ _ _ _ _ inside]
  refine ⟨?_, fun id => ?_⟩
  · split
    · exact nodup.append (List.nodup_singleton _) (by simpa using absent)
    · exact nodup
  · rw [get]
    by_cases same : order.orderId = id
    · subst same
      split <;> simp_all
    · split <;> simp [Ne.symm same, members]

/-- The books stay exact when an order that is no longer active is taken off its book. -/
theorem levelled_off (mirrored : table.Mirrored) {later : OrderTable} {id : Hash} {order : Order}
    (found : table.get id = some order)
    (books : later.orderbooks = if order.status = .active then
      (table.removeFromOrderbook order.marketId order.isLong order.triggerPrice id).orderbooks
      else table.orderbooks)
    (others : ∀ other, other ≠ id → later.get other = table.get other)
    (gone : ∀ left, later.get id = some left → left.status ≠ .active) : later.Levelled := by
  intro marketId inside isLong price
  obtain ⟨nodup, members⟩ := mirrored.levels marketId inside isLong price
  have level : later.level marketId isLong price =
      (table.level marketId isLong price).filter (· ≠ id) := by
    by_cases active : order.status = .active
    · have off := level_removeFromOrderbook table marketId isLong price order active id inside
      rw [if_pos active] at books
      have same : later.level marketId isLong price = (table.removeFromOrderbook order.marketId
          order.isLong order.triggerPrice id).level marketId isLong price := by
        simp only [OrderTable.level, orderbook, books]
      rw [same, off]
      split
      · rfl
      · rename_i elsewhere
        refine (List.filter_eq_self.mpr fun other listed => decide_eq_true ?_).symm
        rintro rfl
        obtain ⟨held, stored, rests⟩ := (members _).mp listed
        obtain rfl := Option.some.inj (found.symm.trans stored)
        exact elsewhere rests
    · rw [if_neg active] at books
      have same : later.level marketId isLong price = table.level marketId isLong price := by
        simp only [OrderTable.level, orderbook, books]
      rw [same]
      refine (List.filter_eq_self.mpr fun other listed => decide_eq_true ?_).symm
      rintro rfl
      obtain ⟨held, stored, rests⟩ := (members _).mp listed
      obtain rfl := Option.some.inj (found.symm.trans stored)
      exact active rests.1
  rw [level]
  refine ⟨nodup.filter _, fun other => ?_⟩
  rw [List.mem_filter, members, decide_eq_true_iff]
  by_cases same : other = id
  · subst same
    constructor
    · exact fun listed => (listed.2 rfl).elim
    · rintro ⟨left, stored, rests⟩
      exact (gone left stored rests.1).elim
  · rw [others other same]
    exact and_iff_left same

/-- Ending an order in place takes it off its level. -/
theorem finish (mirrored : table.Mirrored) (id : Hash) {f : Order → Order}
    (ended : ∀ order, (f order).status ≠ .active)
    (user : ∀ order, (f order).userAddress = order.userAddress)
    (book : ∀ order, (f order).marketId = order.marketId ∧ (f order).isLong = order.isLong ∧
      (f order).triggerPrice = order.triggerPrice) : (table.finish id f).2.Mirrored := by
  unfold OrderTable.finish
  cases found : table.orders[id]? with
  | none => exact mirrored
  | some order =>
      obtain ⟨market, long, price⟩ := book order
      have get (other : Hash) : (table.orders.insert id (f order))[other]? =
          if id = other then some (f order) else table.orders[other]? :=
        Table.getElem?_insert _ _ _ _
      have users := mirrored.users.replace found (user order)
      dsimp only
      rw [market, long, price]
      constructor
      · refine mirrored.levelled_off found ?_ (fun other apart => ?_) (fun left stored => ?_)
        · split <;> rfl
        · split <;> exact (get other).trans (if_neg (Ne.symm apart))
        · have last : some (f order) = some left := by
            rw [← stored]
            split <;> exact ((get id).trans (if_pos rfl)).symm
          exact Option.some.inj last ▸ ended order
      · split <;> exact users

theorem remove (mirrored : table.Mirrored) (id : Hash) : (table.remove id).2.Mirrored := by
  unfold OrderTable.remove
  cases found : table.orders[id]? with
  | none => exact mirrored
  | some order =>
      have get (other : Hash) : (table.orders.erase id)[other]? =
          if id = other then none else table.orders[other]? := by
        rw [Std.ExtTreeMap.getElem?_erase]
        simp only [Table.compare_eq_iff]
      have users := mirrored.users.remove found
      dsimp only
      constructor
      · refine mirrored.levelled_off found ?_ (fun other apart => ?_) (fun left stored => ?_)
        · split <;> rfl
        · split <;> exact (get other).trans (if_neg (Ne.symm apart))
        · have nothing : none = some left := by
            rw [← stored]
            split <;> exact ((get id).trans (if_pos rfl)).symm
          contradiction
      · split <;> exact users

/-- A call that keeps to the condition keeps the books and the index. -/
theorem call (mirrored : table.Mirrored) {call : OrderCall} (keeps : call.Keeps table) :
    (call.run table).Mirrored := by
  cases call with
  | insert order => exact mirrored.insert keeps
  | cancel id =>
      exact mirrored.finish id (fun _ => by simp) (fun _ => rfl) fun _ => ⟨rfl, rfl, rfl⟩
  | execute id =>
      exact mirrored.finish id (fun _ => by simp) (fun _ => rfl) fun _ => ⟨rfl, rfl, rfl⟩
  | remove id => exact mirrored.remove id

/-- One that does not leaves a stale entry in the index or on a level. -/
theorem not_exact (mirrored : table.Mirrored) {call : OrderCall} (fails : ¬ call.Keeps table) :
    ¬ (call.run table).Exact := by
  cases call with
  | insert order =>
      simp only [OrderCall.Keeps, not_forall] at fails
      obtain ⟨old, found, differs⟩ := fails
      intro exact
      by_cases user : old.userAddress = order.userAddress
      · have resting : old.status = .active ∧ old.marketId.toNat < marketCount := by
          by_contra off
          exact differs ⟨user, off⟩
        obtain ⟨active, inside⟩ := resting
        have rests : old.RestsAt old.marketId old.isLong old.triggerPrice :=
          ⟨active, rfl, rfl, rfl⟩
        have before : order.orderId ∈ table.level old.marketId old.isLong old.triggerPrice :=
          ((mirrored.levels _ inside _ _).2 _).mpr ⟨old, found, rests⟩
        obtain ⟨nodup, members⟩ := exact.levels _ inside old.isLong old.triggerPrice
        simp only [OrderCall.run] at nodup members
        rw [level_insert _ _ _ _ _ inside] at nodup members
        split at nodup
        · exact (List.nodup_append.mp nodup).2.2 _ before _ (List.mem_singleton_self _) rfl
        · rename_i elsewhere
          rw [if_neg elsewhere] at members
          obtain ⟨held, stored, belongs⟩ := (members _).mp before
          have last : (table.insert order).get order.orderId = some order :=
            (Table.getElem?_insert _ _ _ _).trans (if_pos rfl)
          obtain rfl := Option.some.inj (last.symm.trans stored)
          exact elsewhere belongs
      · exact Table.stale_collect .stored mirrored.users found user (exact.users _ _)
  | cancel | execute | remove => exact (fails trivial).elim

end Mirrored

end OrderTable

/-- Books and user lookups are exact throughout a run exactly when no insert of it replaces
an order that is on a book or of another user. -/
theorem order_indexes_exact_iff (calls : List OrderCall) :
    (∀ front, front <+: calls → (front.foldl OrderCall.run .new).Exact) ↔
      ∀ front call, front ++ [call] <+: calls → call.Keeps (front.foldl OrderCall.run .new) :=
  foldl_good_iff (fun _ table => table.Mirrored) OrderTable.Exact
    (fun _ table (call : OrderCall) => call.Keeps table) OrderTable.Mirrored.new
    (fun _ _ mirrored => mirrored.exact) (fun _ _ _ _ mirrored keeps => mirrored.call keeps)
    (fun _ _ _ _ mirrored fails => mirrored.not_exact fails)

/-- An active bid in market 0. -/
def someOrder (triggerPrice : FixedI128) : Order where
  orderId := Vector.replicate 32 7
  userAddress := Vector.replicate 20 1
  marketId := 0
  isLong := true
  orderType := .limit
  triggerPrice
  limitPrice := none
  sizeUsd := 100
  leverage := 0
  collateralToken := Vector.replicate 20 0
  collateralAmount := 0
  status := .active
  executionPrice := none
  positionId := none
  txHash := Vector.replicate 32 0
  blockNumber := 1
  createdAt := 0
  executedAt := none

/-- An order stored again at another price stays on the level of its first price. -/
theorem order_book_stale :
    ¬ ([OrderCall.insert (someOrder 10), .insert (someOrder 20)].foldl OrderCall.run .new).Exact := by
  have first : (OrderTable.new.insert (someOrder 10)).Mirrored :=
    OrderTable.Mirrored.new.insert fun old found =>
      absurd (found.symm.trans Std.ExtTreeMap.getElem?_empty) nofun
  refine first.not_exact (fun keeps => ?_ : ¬ (OrderCall.insert (someOrder 20)).Keeps _)
  have known : (OrderTable.new.insert (someOrder 10)).get (someOrder 20).orderId =
      some (someOrder 10) :=
    (Table.getElem?_insert _ _ _ _).trans (if_pos rfl)
  exact (keeps (someOrder 10) known).2 (by decide)

end Perfdb
