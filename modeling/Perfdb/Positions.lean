import Mathlib
import Perfdb.Inverted
import Perfdb.Types

set_option autoImplicit false

namespace Perfdb

/-- In-memory position table with secondary indexes. -/
structure PositionTable where
  positions : Table Hash Position
  byUser : Table Address (KeySet Hash)
  byMarket : Table MarketId (KeySet Hash)

namespace PositionTable

def new : PositionTable := ⟨∅, ∅, ∅⟩

/-- Insert or replace a position. Updates all indexes. -/
def insert (table : PositionTable) (position : Position) : PositionTable where
  positions := table.positions.insert position.positionId position
  byUser := table.byUser.addTo position.userAddress position.positionId
  byMarket := table.byMarket.addTo position.marketId position.positionId

def get (table : PositionTable) (positionId : Hash) : Option Position :=
  table.positions[positionId]?

/-- Update a position in place. Returns whether the position exists. -/
def update (table : PositionTable) (positionId : Hash) (f : Position → Position) :
    Bool × PositionTable :=
  (table.positions.contains positionId,
    { table with positions := table.positions.modify positionId f })

/-- Remove a position and clean up all indexes. -/
def remove (table : PositionTable) (positionId : Hash) : Option Position × PositionTable :=
  match table.positions[positionId]? with
  | none => (none, table)
  | some pos => (some pos, {
      positions := table.positions.erase positionId
      byUser := table.byUser.removeFrom pos.userAddress positionId
      byMarket := table.byMarket.removeFrom pos.marketId positionId })

def allByUser (order : Iteration) (table : PositionTable) (userAddress : Address) :
    List Position :=
  Table.collect order table.byUser table.positions userAddress

def allByMarket (order : Iteration) (table : PositionTable) (marketId : MarketId) :
    List Position :=
  Table.collect order table.byMarket table.positions marketId

def openByUser (order : Iteration) (table : PositionTable) (userAddress : Address) :
    List Position :=
  (table.allByUser order userAddress).filter fun p => p.status = .open_

def openCount (table : PositionTable) : Nat :=
  (table.positions.toList.filter fun entry => entry.2.status = .open_).length

/-- All positions (for iteration, diagnostics, snapshots). -/
def all (order : Iteration) (table : PositionTable) : List Position := table.positions.all order

variable (table : PositionTable) (id : Hash)

@[simp] theorem get_new : new.get id = none := Std.ExtTreeMap.getElem?_empty

theorem get_insert (position : Position) : (table.insert position).get id =
    if position.positionId = id then some position else table.get id :=
  Table.getElem?_insert _ _ _ _

theorem get_update (other : Hash) (f : Position → Position) :
    (table.update other f).2.get id =
      if other = id then (table.get other).map f else table.get id :=
  Table.getElem?_modify _ _ _ _

@[simp] theorem update_byUser (f : Position → Position) :
    (table.update id f).2.byUser = table.byUser := rfl

@[simp] theorem update_byMarket (f : Position → Position) :
    (table.update id f).2.byMarket = table.byMarket := rfl

/-- Tables are equal when every lookup and both indexes agree. -/
theorem ext_get {left right : PositionTable} (same : ∀ id, left.get id = right.get id)
    (users : left.byUser = right.byUser) (markets : left.byMarket = right.byMarket) :
    left = right := by
  obtain ⟨positions, byUser, byMarket⟩ := left
  obtain ⟨others, byUser', byMarket'⟩ := right
  obtain rfl : positions = others := Std.ExtTreeMap.ext_getElem? same
  subst users markets
  rfl

end PositionTable

end Perfdb
