import Mathlib
import Perfdb.Histories
import Perfdb.Positions

set_option autoImplicit false

namespace Perfdb

/-- A change of a position that leaves its id, user and market alone. -/
structure InPlace where
  change : Position → Position
  positionId : ∀ p, (change p).positionId = p.positionId
  userAddress : ∀ p, (change p).userAddress = p.userAddress
  marketId : ∀ p, (change p).marketId = p.marketId

inductive PositionCall where
  | insert (position : Position)
  | update (positionId : Hash) (inPlace : InPlace)
  | remove (positionId : Hash)

def PositionCall.run (table : PositionTable) : PositionCall → PositionTable
  | .insert position => table.insert position
  | .update positionId inPlace => (table.update positionId inPlace.change).2
  | .remove positionId => (table.remove positionId).2

/-- A position that is replaced has the user and the market of its replacement. -/
def PositionCall.Keeps (table : PositionTable) : PositionCall → Prop
  | .insert position => ∀ old, table.get position.positionId = some old →
      old.userAddress = position.userAddress ∧ old.marketId = position.marketId
  | .update _ _ | .remove _ => True

namespace PositionTable

/-- Every lookup by user or market finds exactly the stored positions, each once. -/
structure Exact (table : PositionTable) : Prop where
  users : ∀ order user, (table.allByUser order user).Perm
    ((table.all order).filter fun p => p.userAddress = user)
  markets : ∀ order marketId, (table.allByMarket order marketId).Perm
    ((table.all order).filter fun p => p.marketId = marketId)

/-- The indexes list each stored position under its user and its market, and nothing
else. -/
structure Mirrored (table : PositionTable) : Prop where
  users : Table.Mirrors Position.userAddress table.byUser table.positions
  markets : Table.Mirrors Position.marketId table.byMarket table.positions

namespace Mirrored

variable {table : PositionTable}

theorem new : PositionTable.new.Mirrored := ⟨Table.Mirrors.empty _, Table.Mirrors.empty _⟩

theorem exact (mirrored : table.Mirrored) : table.Exact where
  users order user := Table.collect_perm order mirrored.users user
  markets order marketId := Table.collect_perm order mirrored.markets marketId

theorem insert (mirrored : table.Mirrored) {position : Position}
    (keeps : (PositionCall.insert position).Keeps table) : (table.insert position).Mirrored where
  users := mirrored.users.insert position.positionId position fun old found => (keeps old found).1
  markets :=
    mirrored.markets.insert position.positionId position fun old found => (keeps old found).2

theorem update (mirrored : table.Mirrored) (id : Hash) {f : Position → Position}
    (user : ∀ p, (f p).userAddress = p.userAddress) (market : ∀ p, (f p).marketId = p.marketId) :
    (table.update id f).2.Mirrored where
  users := mirrored.users.modify id user
  markets := mirrored.markets.modify id market

theorem remove (mirrored : table.Mirrored) (id : Hash) : (table.remove id).2.Mirrored := by
  unfold PositionTable.remove
  cases found : table.positions[id]? with
  | none => exact mirrored
  | some pos => exact ⟨mirrored.users.remove found, mirrored.markets.remove found⟩

/-- A call that keeps to the condition keeps the indexes. -/
theorem call (mirrored : table.Mirrored) {call : PositionCall} (keeps : call.Keeps table) :
    (call.run table).Mirrored := by
  cases call with
  | insert position => exact mirrored.insert keeps
  | update id inPlace => exact mirrored.update id inPlace.userAddress inPlace.marketId
  | remove id => exact mirrored.remove id

/-- One that does not leaves a stale entry that a lookup finds. -/
theorem not_exact (mirrored : table.Mirrored) {call : PositionCall} (fails : ¬ call.Keeps table) :
    ¬ (call.run table).Exact := by
  cases call with
  | insert position =>
      simp only [PositionCall.Keeps, not_forall] at fails
      obtain ⟨old, found, differs⟩ := fails
      intro exact
      by_cases user : old.userAddress = position.userAddress
      · have market : old.marketId ≠ position.marketId := fun same => differs ⟨user, same⟩
        exact Table.stale_collect .stored mirrored.markets found market (exact.markets _ _)
      · exact Table.stale_collect .stored mirrored.users found user (exact.users _ _)
  | update | remove => exact (fails trivial).elim

end Mirrored

end PositionTable

/-- The lookups are exact throughout a run exactly when no insert of it moves a known id
to another user or market. -/
theorem position_indexes_exact_iff (calls : List PositionCall) :
    (∀ front, front <+: calls → (front.foldl PositionCall.run .new).Exact) ↔
      ∀ front call, front ++ [call] <+: calls →
        call.Keeps (front.foldl PositionCall.run .new) :=
  foldl_good_iff (fun _ table => table.Mirrored) PositionTable.Exact
    (fun _ table (call : PositionCall) => call.Keeps table) PositionTable.Mirrored.new
    (fun _ _ mirrored => mirrored.exact) (fun _ _ _ _ mirrored keeps => mirrored.call keeps)
    (fun _ _ _ _ mirrored fails => mirrored.not_exact fails)

/-- A position of market 0 that is open. -/
def somePosition (user : UInt8) : Position where
  positionId := Vector.replicate 32 7
  userAddress := Vector.replicate 20 user
  marketId := 0
  isLong := true
  sizeUsd := 100
  collateralUsd := 10
  collateralToken := Vector.replicate 20 0
  collateralAmount := 10
  entryPrice := 1
  exitPrice := none
  realizedPnl := none
  leverage := 10
  status := .open_
  openTx := Vector.replicate 32 0
  closeTx := none
  openBlock := 1
  closeBlock := none
  openedAt := 0
  closedAt := none

/-- The same id stored again for another user is still found under the first user. -/
theorem position_index_stale :
    ¬ ([PositionCall.insert (somePosition 1), .insert (somePosition 2)].foldl
      PositionCall.run .new).Exact := by
  have first : (PositionTable.new.insert (somePosition 1)).Mirrored :=
    PositionTable.Mirrored.new.insert fun old found => by
      rw [PositionTable.get_new] at found
      contradiction
  refine first.not_exact (fun keeps => ?_ : ¬ (PositionCall.insert (somePosition 2)).Keeps _)
  have known : (PositionTable.new.insert (somePosition 1)).get (somePosition 2).positionId =
      some (somePosition 1) :=
    (PositionTable.get_insert _ _ _).trans (if_pos rfl)
  have same := (keeps (somePosition 1) known).1
  exact absurd same (by decide)

end Perfdb
