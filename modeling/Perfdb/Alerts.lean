import Mathlib
import Perfdb.Enlisted
import Perfdb.Histories
import Perfdb.Types

set_option autoImplicit false

namespace Perfdb

structure Alert where
  id : UInt64
  address : Address
  alertType : String
  marketId : Option MarketId
  threshold : Option String
  enabled : Bool
  triggeredAt : Option UInt64
  createdAt : UInt64
  deriving DecidableEq

structure AlertStore where
  primary : Table UInt64 Alert
  byUserIds : Table Address (List UInt64)
  nextId : UInt64

namespace AlertStore

def new : AlertStore := ⟨∅, ∅, 1⟩

/-- The alert gets the next id, whatever id it has. -/
def insert (store : AlertStore) (alert : Alert) : UInt64 × AlertStore :=
  let id := store.nextId
  (id, {
    nextId := id + 1
    primary := store.primary.insert id { alert with id := id }
    byUserIds := Table.pushTo store.byUserIds alert.address id })

def get (store : AlertStore) (id : UInt64) : Option Alert := store.primary[id]?

def byUser (store : AlertStore) (address : Address) : List Alert :=
  match store.byUserIds[address]? with
  | some ids => ids.filterMap fun id => store.primary[id]?
  | none => []

def remove (store : AlertStore) (id : UInt64) : Option Alert × AlertStore :=
  match store.primary[id]? with
  | some alert =>
      (some alert, { store with
        primary := store.primary.erase id
        byUserIds := Table.retainOthers store.byUserIds alert.address id })
  | none => (none, store)

def removeByUserAndId (store : AlertStore) (address : Address) (id : UInt64) :
    Option Alert × AlertStore :=
  match store.primary[id]? with
  | some alert => if alert.address ≠ address then (none, store) else store.remove id
  | none => (none, store)

/-- Changes an alert in place. Returns whether it exists. -/
def change (store : AlertStore) (id : UInt64) (f : Alert → Alert) : Bool × AlertStore :=
  (store.primary.contains id, { store with primary := store.primary.modify id f })

def updateTriggered (store : AlertStore) (id : UInt64) (timestamp : UInt64) : Bool × AlertStore :=
  store.change id fun alert => { alert with triggeredAt := some timestamp }

def setEnabled (store : AlertStore) (id : UInt64) (enabled : Bool) : Bool × AlertStore :=
  store.change id fun alert => { alert with enabled := enabled }

def setNextId (store : AlertStore) (id : UInt64) : AlertStore := { store with nextId := id }

end AlertStore

inductive AlertCall where
  | insert (alert : Alert)
  | remove (id : UInt64)
  | removeByUserAndId (address : Address) (id : UInt64)
  | updateTriggered (id : UInt64) (timestamp : UInt64)
  | setEnabled (id : UInt64) (enabled : Bool)
  | setNextId (id : UInt64)

/-- A store, the ids it has returned in their order, and its counter as a number without bound. -/
structure AlertRun where
  store : AlertStore
  issued : List UInt64
  counter : Nat

def AlertRun.start : AlertRun := ⟨.new, [], 1⟩

namespace AlertCall

def run (r : AlertRun) : AlertCall → AlertRun
  | .insert alert =>
      ⟨(r.store.insert alert).2, r.issued ++ [(r.store.insert alert).1], r.counter + 1⟩
  | .remove id => { r with store := (r.store.remove id).2 }
  | .removeByUserAndId address id => { r with store := (r.store.removeByUserAndId address id).2 }
  | .updateTriggered id timestamp => { r with store := (r.store.updateTriggered id timestamp).2 }
  | .setEnabled id enabled => { r with store := (r.store.setEnabled id enabled).2 }
  | .setNextId id => { r with store := r.store.setNextId id, counter := id.toNat }

/-- An id is below 2^64, and the counter is set above every id that was returned. -/
def Permitted (r : AlertRun) : AlertCall → Prop
  | .insert _ => r.counter < 2 ^ 64
  | .setNextId id => ∀ old ∈ r.issued, old < id
  | .remove _ | .removeByUserAndId _ _ | .updateTriggered _ _ | .setEnabled _ _ => True

end AlertCall

namespace AlertRun

/-- The lists are exact, and the counter is above every id that was returned. -/
structure Exact (r : AlertRun) : Prop where
  enlisted : Table.Enlisted Alert.address r.issued r.store.byUserIds r.store.primary
  keyed : r.store.primary.Keyed Alert.id
  nextId : r.store.nextId = UInt64.ofNat r.counter
  above : ∀ id ∈ r.issued, id.toNat < r.counter

section Step

variable {r : AlertRun}

/-- The id that the store is about to return. -/
theorem Exact.next (exact : r.Exact) (room : r.counter < 2 ^ 64) :
    r.store.nextId.toNat = r.counter := by
  rw [exact.nextId, UInt64.toNat_ofNat_of_lt' room]

theorem Exact.fresh (exact : r.Exact) (room : r.counter < 2 ^ 64) :
    r.store.nextId ∉ r.issued := by
  intro issued
  have below := exact.above _ issued
  rw [exact.next room] at below
  omega

theorem Exact.insert (exact : r.Exact) (room : r.counter < 2 ^ 64) (alert : Alert) :
    ((AlertCall.insert alert).run r).Exact := by
  refine ⟨?_, ?_, ?_, fun id issued => ?_⟩
  · exact exact.enlisted.push (exact.fresh room) { alert with id := r.store.nextId }
  · exact Table.Keyed.insert exact.keyed { alert with id := r.store.nextId }
  · apply UInt64.toNat_inj.mp
    change (r.store.nextId + 1).toNat = (UInt64.ofNat (r.counter + 1)).toNat
    rw [UInt64.toNat_add, exact.next room, UInt64.toNat_ofNat']
    rfl
  · rcases List.mem_append.mp issued with old | new
    · exact Nat.lt_succ_of_lt (exact.above id old)
    · rw [List.mem_singleton.mp new]
      exact Nat.lt_succ_of_le (Nat.le_of_eq (exact.next room))

theorem Exact.remove (exact : r.Exact) (id : UInt64) :
    ((AlertCall.remove id).run r).Exact := by
  simp only [AlertCall.run, AlertStore.remove]
  cases found : r.store.primary[id]? with
  | none => exact exact
  | some alert =>
      exact ⟨exact.enlisted.remove found, Table.Keyed.erase exact.keyed id, exact.nextId, exact.above⟩

theorem Exact.removeByUserAndId (exact : r.Exact) (address : Address) (id : UInt64) :
    ((AlertCall.removeByUserAndId address id).run r).Exact := by
  simp only [AlertCall.run, AlertStore.removeByUserAndId]
  split
  · split
    · exact exact
    · exact exact.remove id
  · exact exact

/-- A change in place keeps the owner and the id. -/
theorem Exact.change (exact : r.Exact) (id : UInt64) {f : Alert → Alert}
    (owner : ∀ alert, (f alert).address = alert.address) (same : ∀ alert, (f alert).id = alert.id) :
    Exact { r with store := (r.store.change id f).2 } :=
  ⟨exact.enlisted.modify id owner, Table.Keyed.modify exact.keyed id same, exact.nextId, exact.above⟩

theorem Exact.setNextId (exact : r.Exact) {id : UInt64} (above : ∀ old ∈ r.issued, old < id) :
    ((AlertCall.setNextId id).run r).Exact :=
  ⟨exact.enlisted, exact.keyed, UInt64.ofNat_toNat.symm, fun old issued =>
    UInt64.lt_iff_toNat_lt.mp (above old issued)⟩

theorem Exact.run (exact : r.Exact) (call : AlertCall) (permitted : call.Permitted r) :
    (call.run r).Exact := by
  cases call with
  | insert alert => exact exact.insert permitted alert
  | remove id => exact exact.remove id
  | removeByUserAndId address id => exact exact.removeByUserAndId address id
  | updateTriggered id timestamp => exact exact.change id (fun _ => rfl) fun _ => rfl
  | setEnabled id enabled => exact exact.change id (fun _ => rfl) fun _ => rfl
  | setNextId id => exact exact.setNextId permitted

theorem Exact.byUser (exact : r.Exact) (address : Address) : r.store.byUser address =
    (r.issued.filterMap r.store.get).filter fun alert => alert.address = address := by
  refine Eq.trans ?_ (exact.enlisted.collect address)
  rw [AlertStore.byUser, Table.idsFor]
  cases r.store.byUserIds[address]? <;> rfl

theorem Exact.nodup (exact : r.Exact) (address : Address) : (r.store.byUser address).Nodup := by
  rw [exact.byUser]
  apply List.Nodup.filter
  apply exact.enlisted.distinct.filterMap
  intro id other alert first second
  exact (exact.keyed id alert first).symm.trans (exact.keyed other alert second)

end Step

end AlertRun

end Perfdb
