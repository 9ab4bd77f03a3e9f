import Mathlib
import Perfdb.PositionIndexes
import Perfdb.ReplayPositions
import Perfdb.Totals

set_option autoImplicit false

namespace Perfdb

/-- An open position, as its owner sees it. -/
structure Holding where
  user : Address
  marketId : MarketId
  isLong : Bool
  sizeUsd : FixedI128
  deriving DecidableEq

/-- What an event makes of a position that may be open. -/
def Holding.step (id : Hash) (held : Option Holding) : Event → Option Holding
  | .positionOpened positionId user marketId isLong sizeUsd _ _ _ _ =>
      if positionId = id then some ⟨user, marketId, isLong, sizeUsd⟩ else held
  | .positionClosed positionId _ _ closedSizeUsd _ _ isFullClose =>
      if positionId = id then
        if isFullClose then none
        else held.map fun h => { h with sizeUsd := h.sizeUsd - closedSizeUsd }
      else held
  | .positionModified positionId newSizeUsd _ _ =>
      if positionId = id then held.map fun h => { h with sizeUsd := newSizeUsd } else held
  | .liquidation positionId _ _ _ _ _ => if positionId = id then none else held
  | _ => held

/-- The open position of an id after some events. -/
def holding (id : Hash) (events : List IndexedEvent) : Option Holding :=
  events.foldl (fun held indexed => Holding.step id held indexed.event) none

theorem holding_append_one (id : Hash) (front : List IndexedEvent) (indexed : IndexedEvent) :
    holding id (front ++ [indexed]) = Holding.step id (holding id front) indexed.event := by
  rw [holding, List.foldl_append]
  rfl

def Position.holding (p : Position) : Option Holding :=
  if p.status = .open_ then some ⟨p.userAddress, p.marketId, p.isLong, p.sizeUsd⟩ else none

def PositionTable.Holds (events : List IndexedEvent) (table : PositionTable) : Prop :=
  ∀ id, (table.get id).bind Position.holding = Perfdb.holding id events

theorem PositionTable.Holds.event {front : List IndexedEvent} {table : PositionTable}
    (holds : table.Holds front) (indexed : IndexedEvent) :
    (indexed.onPositions table).Holds (front ++ [indexed]) := by
  intro id
  rw [holding_append_one, ← holds id]
  obtain ⟨blockNumber, blockTimestamp, txHash, txIndex, logIndex, event⟩ := indexed
  cases event with
  | positionOpened positionId =>
      simp only [IndexedEvent.onPositions, PositionTable.get_insert, Holding.step]
      by_cases same : positionId = id
      · simp [IndexedEvent.opened, same, Position.holding]
      · simp [IndexedEvent.opened, same]
  | positionClosed positionId user marketId closedSizeUsd exitPrice realizedPnl isFullClose =>
      simp only [IndexedEvent.onPositions, PositionTable.get_update, Holding.step]
      by_cases same : positionId = id
      · subst same
        cases table.get positionId with
        | none => simp
        | some p => cases isFullClose <;> by_cases isOpen : p.status = .open_ <;>
            simp [Position.holding, isOpen]
      · simp [same]
  | positionModified positionId =>
      simp only [IndexedEvent.onPositions, PositionTable.get_update, Holding.step]
      by_cases same : positionId = id
      · subst same
        cases table.get positionId with
        | none => simp
        | some p => by_cases isOpen : p.status = .open_ <;> simp [Position.holding, isOpen]
      · simp [same]
  | liquidation positionId =>
      simp only [IndexedEvent.onPositions, PositionTable.get_update, Holding.step]
      by_cases same : positionId = id
      · subst same
        cases table.get positionId <;> simp [Position.holding]
      · simp [same]
  | _ => rfl

def Event.subject : Event → Option Hash
  | .positionOpened positionId _ _ _ _ _ _ _ _ | .positionClosed positionId _ _ _ _ _ _
  | .positionModified positionId _ _ _ | .liquidation positionId _ _ _ _ _ => some positionId
  | _ => none

theorem onPositions_erase {indexed : IndexedEvent} {id : Hash}
    (about : indexed.event.subject = some id) (table : PositionTable) :
    (indexed.onPositions table).positions.erase id = table.positions.erase id := by
  have modified (f : Position → Position) : (table.update id f).2.positions.erase id =
      table.positions.erase id := by
    apply Std.ExtTreeMap.ext_getElem?
    intro other
    simp only [PositionTable.update, Std.ExtTreeMap.getElem?_erase, Table.getElem?_modify,
      Table.compare_eq_iff]
    split <;> rfl
  obtain ⟨blockNumber, blockTimestamp, txHash, txIndex, logIndex, event⟩ := indexed
  cases event with
  | positionOpened positionId =>
      obtain rfl : positionId = id := Option.some.inj about
      apply Std.ExtTreeMap.ext_getElem?
      intro other
      simp only [IndexedEvent.onPositions, IndexedEvent.opened, PositionTable.insert,
        Std.ExtTreeMap.getElem?_erase, Table.getElem?_insert, Table.compare_eq_iff]
      split <;> rfl
  | positionClosed | positionModified | liquidation =>
      obtain rfl := Option.some.inj about
      exact modified _
  | _ => contradiction

section Weighing

variable {M : Type} [AddCommMonoid M]

/-- The weight of a position that may be open. -/
def weigh (weight : Holding → M) (held : Option Holding) : M := (held.map weight).getD 0

/-- The sum of a weight of the open positions. -/
def PositionTable.heldTotal (weight : Holding → M) (table : PositionTable) : M :=
  Table.total (fun p => weigh weight p.holding) table.positions

theorem heldTotal_new (weight : Holding → M) : PositionTable.new.heldTotal weight = 0 :=
  Table.total_empty _

theorem PositionTable.holds_new : PositionTable.new.Holds [] := by
  intro id
  rw [PositionTable.get_new]
  rfl

/-- An event moves a sum by what it makes of the position it is about. -/
theorem heldTotal_event (weight : Holding → M) {front : List IndexedEvent} {indexed : IndexedEvent}
    {table : PositionTable} {id : Hash} (holds : table.Holds front)
    (about : indexed.event.subject = some id) :
    (indexed.onPositions table).heldTotal weight + weigh weight (holding id front) =
      table.heldTotal weight + weigh weight (Holding.step id (holding id front) indexed.event) := by
  have at_id {events : List IndexedEvent} {stored : PositionTable} (held : stored.Holds events) :
      Table.weightAt (fun p => weigh weight p.holding) stored.positions id =
        weigh weight (holding id events) := by
    rw [← held id, Table.weightAt, PositionTable.get]
    cases stored.positions[id]? <;> rfl
  rw [← holding_append_one, ← at_id holds, ← at_id (holds.event indexed)]
  exact Table.total_congr_erase _ id (onPositions_erase about table)

end Weighing

end Perfdb
