import Mathlib
import Perfdb.Histories
import Perfdb.Types
import Perfdb.UniqueIndex

set_option autoImplicit false

namespace Perfdb

structure ApiKey where
  id : String
  address : Address
  keyHash : String
  label : Option String
  rateLimitRpm : UInt32
  lastUsedAt : Option UInt64
  expiresAt : Option UInt64
  createdAt : UInt64
  deriving DecidableEq

structure ApiKeyStore where
  primary : Table String ApiKey
  byUserIds : Table Address (List String)
  byHash : Table String String

namespace ApiKeyStore

def new : ApiKeyStore := ⟨∅, ∅, ∅⟩

def insert (store : ApiKeyStore) (key : ApiKey) : ApiKeyStore where
  byHash := store.byHash.insert key.keyHash key.id
  byUserIds := store.byUserIds.alter key.address fun ids => some (ids.getD [] ++ [key.id])
  primary := store.primary.insert key.id key

def get (store : ApiKeyStore) (id : String) : Option ApiKey := store.primary[id]?

def getByHash (store : ApiKeyStore) (hash : String) : Option ApiKey :=
  Table.findBy store.byHash store.primary hash

def idsOf (store : ApiKeyStore) (address : Address) : List String :=
  store.byUserIds[address]?.getD []

def byUser (store : ApiKeyStore) (address : Address) : List ApiKey :=
  match store.byUserIds[address]? with
  | some ids => ids.filterMap fun id => store.primary[id]?
  | none => []

def remove (store : ApiKeyStore) (id : String) : Option ApiKey × ApiKeyStore :=
  match store.primary[id]? with
  | some key =>
      (some key, {
        primary := store.primary.erase id
        byHash := store.byHash.erase key.keyHash
        byUserIds := store.byUserIds.modify key.address fun ids => ids.filter (· ≠ id) })
  | none => (none, store)

def removeByUserAndId (store : ApiKeyStore) (address : Address) (id : String) :
    Option ApiKey × ApiKeyStore :=
  match store.primary[id]? with
  | some key => if key.address ≠ address then (none, store) else store.remove id
  | none => (none, store)

/-- Returns whether the key exists. -/
def touchLastUsed (store : ApiKeyStore) (id : String) (timestamp : UInt64) :
    Bool × ApiKeyStore :=
  (store.primary.contains id,
    { store with
      primary := store.primary.modify id fun key => { key with lastUsedAt := some timestamp } })

end ApiKeyStore

inductive ApiKeyCall where
  | insert (key : ApiKey)
  | remove (id : String)
  | removeByUserAndId (address : Address) (id : String)
  | touchLastUsed (id : String) (timestamp : UInt64)

namespace ApiKeyCall

def run (store : ApiKeyStore) : ApiKeyCall → ApiKeyStore
  | .insert key => store.insert key
  | .remove id => (store.remove id).2
  | .removeByUserAndId address id => (store.removeByUserAndId address id).2
  | .touchLastUsed id timestamp => (store.touchLastUsed id timestamp).2

/-- An insert is of an id that is not stored. -/
def Fresh (store : ApiKeyStore) : ApiKeyCall → Prop
  | .insert key => store.get key.id = none
  | .remove _ | .removeByUserAndId _ _ | .touchLastUsed _ _ => True

end ApiKeyCall

namespace ApiKeyStore

def DistinctHashes (store : ApiKeyStore) : Prop :=
  ∀ id other key found, store.get id = some key → store.get other = some found →
    key.keyHash = found.keyHash → id = other

/-- Both indexes find exactly the keys that are stored. -/
structure Exact (store : ApiKeyStore) : Prop where
  byHash : ∀ hash key, store.getByHash hash = some key ↔
    (∃ id, store.get id = some key) ∧ key.keyHash = hash
  byUser : ∀ address, (store.byUser address).Nodup ∧
    ∀ key, key ∈ store.byUser address ↔ (∃ id, store.get id = some key) ∧ key.address = address

def hashOf (key : ApiKey) : Option String := some key.keyHash

/-- The indexes as the calls keep them. -/
structure Indexed (store : ApiKeyStore) : Prop where
  keyed : ∀ id key, store.get id = some key → key.id = id
  hashes : Table.Points hashOf store.byHash store.primary
  distinct : ∀ address, (store.idsOf address).Nodup
  owners : ∀ address id, id ∈ store.idsOf address ↔
    ∃ key, store.get id = some key ∧ key.address = address

section Step

variable {store : ApiKeyStore} {key : ApiKey} {id : String} {address : Address}

theorem DistinctHashes.distinct (hashes : store.DistinctHashes) :
    Table.Distinct hashOf store.primary := by
  intro code id other first second
  obtain ⟨key, stored, own⟩ := Option.bind_eq_some_iff.mp first
  obtain ⟨found, there, same⟩ := Option.bind_eq_some_iff.mp second
  exact hashes id other key found stored there ((Option.some.inj own).trans (Option.some.inj same).symm)

theorem byUser_eq (store : ApiKeyStore) (address : Address) :
    store.byUser address =
      (store.idsOf address).filterMap fun id => store.primary[id]? := by
  rw [byUser, idsOf]
  cases store.byUserIds[address]? <;> rfl

theorem Indexed.exact (indexed : store.Indexed) : store.Exact := by
  refine ⟨fun hash key => ?_, fun address => ⟨?_, fun key => ?_⟩⟩
  · rw [getByHash, indexed.hashes.findBy_iff, ← exists_and_right]
    exact exists_congr fun id => and_congr_right fun _ => Option.some_inj
  · rw [byUser_eq]
    refine (indexed.distinct address).filterMap fun id other key first second => ?_
    rw [← indexed.keyed id key first, ← indexed.keyed other key second]
  · rw [byUser_eq, List.mem_filterMap]
    constructor
    · rintro ⟨id, listed, stored⟩
      obtain ⟨found, there, owner⟩ := (indexed.owners address id).mp listed
      obtain rfl := Option.some.inj (there.symm.trans stored)
      exact ⟨⟨id, stored⟩, owner⟩
    · rintro ⟨⟨id, stored⟩, owner⟩
      exact ⟨id, (indexed.owners address id).mpr ⟨key, stored, owner⟩, stored⟩

theorem get_insert (store : ApiKeyStore) (key : ApiKey) (id : String) :
    (store.insert key).get id = if key.id = id then some key else store.get id :=
  Table.getElem?_insert _ _ _ _

theorem ids_insert (store : ApiKeyStore) (key : ApiKey) (address : Address) :
    (store.insert key).idsOf address =
      store.idsOf address ++ if key.address = address then [key.id] else [] := by
  rw [idsOf, idsOf, insert, Table.getElem?_alter]
  split
  · rename_i same
    subst same
    rfl
  · exact (List.append_nil _).symm

theorem codeAt_eq (store : ApiKeyStore) (id : String) :
    Table.codeAt hashOf store.primary id = (store.get id).map ApiKey.keyHash := by
  rw [Table.codeAt, get]
  cases store.primary[id]? <;> rfl

theorem Indexed.insert (indexed : store.Indexed) (fresh : store.get key.id = none)
    (hashes : (store.insert key).DistinctHashes) : (store.insert key).Indexed := by
  have unlisted (address : Address) : key.id ∉ store.idsOf address := by
    intro listed
    obtain ⟨found, stored, _⟩ := (indexed.owners address key.id).mp listed
    rw [fresh] at stored
    contradiction
  refine ⟨fun id found stored => ?_, ?_, fun address => ?_, fun address id => ?_⟩
  · rw [get_insert] at stored
    split at stored
    · rename_i same
      rw [← Option.some.inj stored, same]
    · exact indexed.keyed id found stored
  · refine indexed.hashes.change key.id hashes.distinct (fun other apart => ?_) fun code => ?_
    · rw [codeAt_eq, codeAt_eq, get_insert, if_neg apart.symm]
    · rw [codeAt_eq, codeAt_eq, get_insert, if_pos rfl, fresh, ApiKeyStore.insert,
        Table.getElem?_insert]
      simp
  · rw [ids_insert]
    split
    · exact (indexed.distinct address).append (List.nodup_singleton _)
        (List.disjoint_singleton.mpr (unlisted address))
    · rw [List.append_nil]
      exact indexed.distinct address
  · rw [ids_insert, List.mem_append, indexed.owners, get_insert]
    by_cases same : key.id = id
    · subst same
      rw [fresh]
      simp
    · simp only [same, if_false, or_iff_left_iff_imp]
      intro added
      split at added
      · exact absurd (List.mem_singleton.mp added).symm same
      · contradiction

theorem Indexed.erase (indexed : store.Indexed) (hashes : store.DistinctHashes)
    (stored : store.get id = some key) :
    Indexed ⟨store.primary.erase id, store.byUserIds.modify key.address (·.filter (· ≠ id)),
      store.byHash.erase key.keyHash⟩ := by
  have gone (other : String) : ApiKeyStore.get ⟨store.primary.erase id,
      store.byUserIds.modify key.address (·.filter (· ≠ id)), store.byHash.erase key.keyHash⟩ other =
        if id = other then none else store.get other := by
    rw [get, get, Std.ExtTreeMap.getElem?_erase]
    simp only [Table.compare_eq_iff]
  have ids (address : Address) : ApiKeyStore.idsOf ⟨store.primary.erase id,
      store.byUserIds.modify key.address (·.filter (· ≠ id)), store.byHash.erase key.keyHash⟩
        address = (store.idsOf address).filter (· ≠ id) := by
    rw [idsOf, idsOf, Table.getElem?_modify]
    split
    · rename_i same
      subst same
      cases store.byUserIds[key.address]? <;> rfl
    · rename_i apart
      refine (List.filter_eq_self.mpr fun other listed => decide_eq_true ?_).symm
      rintro rfl
      obtain ⟨found, there, owner⟩ := (indexed.owners address other).mp listed
      obtain rfl := Option.some.inj (there.symm.trans stored)
      exact apart owner
  refine ⟨fun other found there => ?_, ?_, fun address => ?_, fun address other => ?_⟩
  · rw [gone] at there
    split at there
    · contradiction
    · exact indexed.keyed other found there
  · refine indexed.hashes.change id (hashes.distinct.mono fun other code found => ?_)
      (fun other apart => ?_) fun code => ?_
    · rw [codeAt_eq, gone] at found
      rw [codeAt_eq]
      split at found
      · contradiction
      · exact found
    · rw [codeAt_eq, codeAt_eq, gone, if_neg apart.symm]
    · rw [codeAt_eq, codeAt_eq, gone, if_pos rfl, stored, Std.ExtTreeMap.getElem?_erase]
      simp
  · rw [ids]
    exact (indexed.distinct address).filter _
  · rw [ids, List.mem_filter, indexed.owners, gone]
    by_cases same : id = other
    · subst same
      simp
    · simp [same, Ne.symm same]

theorem Indexed.remove (indexed : store.Indexed) (hashes : store.DistinctHashes) (id : String) :
    (store.remove id).2.Indexed := by
  unfold ApiKeyStore.remove
  cases stored : store.primary[id]? with
  | none => exact indexed
  | some key => exact indexed.erase hashes stored

/-- Noting the use of a key changes neither its hash nor its owner. -/
theorem Indexed.touch (indexed : store.Indexed) (id : String) (timestamp : UInt64) :
    (store.touchLastUsed id timestamp).2.Indexed := by
  have touched (other : String) : (store.touchLastUsed id timestamp).2.get other =
      if id = other then (store.get id).map fun key => { key with lastUsedAt := some timestamp }
      else store.get other := Table.getElem?_modify _ _ _ _
  refine ⟨fun other found there => ?_, indexed.hashes.congr fun other => ?_, indexed.distinct,
    fun address other => ?_⟩
  · rw [touched] at there
    split at there
    · rename_i same
      obtain ⟨key, stored, rfl⟩ := Option.map_eq_some_iff.mp there
      exact same ▸ indexed.keyed id key stored
    · exact indexed.keyed other found there
  · rw [codeAt_eq, codeAt_eq, touched]
    split
    · rename_i same
      rw [← same]
      cases store.get id <;> rfl
    · rfl
  · refine (indexed.owners address other).trans ?_
    rw [touched]
    by_cases same : id = other
    · subst same
      cases store.get id <;> simp
    · simp only [same, if_false]

/-- Each call keeps the indexes, if its insert is of a new id. -/
theorem Indexed.run (indexed : store.Indexed) (hashes : store.DistinctHashes) (call : ApiKeyCall)
    (later : (call.run store).DistinctHashes) (fresh : call.Fresh store) :
    (call.run store).Indexed := by
  cases call with
  | insert key => exact indexed.insert fresh later
  | remove id => exact indexed.remove hashes id
  | touchLastUsed id timestamp => exact indexed.touch id timestamp
  | removeByUserAndId address id =>
      simp only [ApiKeyCall.run, removeByUserAndId]
      split
      · split
        · exact indexed
        · exact indexed.remove hashes id
      · exact indexed

/-- An insert of a stored id shows at once: its owner has it twice, or its old owner still has
it. -/
theorem Indexed.not_exact (indexed : store.Indexed) {call : ApiKeyCall}
    (stale : ¬ call.Fresh store) : ¬ (call.run store).Exact := by
  intro exact
  cases call with
  | insert key =>
      obtain ⟨old, stored⟩ := Option.ne_none_iff_exists'.mp stale
      have listed : key.id ∈ store.idsOf old.address :=
        (indexed.owners old.address key.id).mpr ⟨old, stored, rfl⟩
      have now : (store.insert key).primary[key.id]? = some key :=
        (get_insert store key key.id).trans (if_pos rfl)
      have whole := byUser_eq (store.insert key) old.address
      rw [ids_insert, List.filterMap_append] at whole
      have found : key ∈ (store.idsOf old.address).filterMap
          fun id => (store.insert key).primary[id]? :=
        List.mem_filterMap.mpr ⟨key.id, listed, now⟩
      by_cases same : key.address = old.address
      · have twice : (store.insert key).byUser old.address =
            (store.idsOf old.address).filterMap (fun id => (store.insert key).primary[id]?) ++
              [key] := by
          rw [whole, if_pos same, List.filterMap_cons, now, List.filterMap_nil]
        have distinct := (exact.byUser old.address).1
        rw [ApiKeyCall.run, twice] at distinct
        exact (List.nodup_append.mp distinct).2.2 key found key (List.mem_singleton_self _) rfl
      · have member : key ∈ (store.insert key).byUser old.address := by
          rw [whole]
          exact List.mem_append_left _ found
        exact same (((exact.byUser old.address).2 key).mp member).2
  | remove | removeByUserAndId | touchLastUsed => exact stale trivial

theorem new_indexed : new.Indexed := by
  have absent (id : String) : new.get id = none := Std.ExtTreeMap.getElem?_empty
  have ids (address : Address) : new.idsOf address = [] := by
    rw [idsOf, new, Std.ExtTreeMap.getElem?_empty]
    rfl
  refine ⟨fun id key stored => ?_, Table.points_empty, fun address => ?_, fun address id => ?_⟩
  · rw [absent] at stored
    cases stored
  · rw [ids]
    exact List.nodup_nil
  · rw [ids, absent]
    simp

end Step

end ApiKeyStore

/-- Lookups by hash and by owner find what is stored, at every point of a run, exactly when no
insert is of an id that is stored. -/
theorem api_key_indexes_exact_iff (calls : List ApiKeyCall)
    (hashes : ∀ front, front <+: calls → (front.foldl ApiKeyCall.run .new).DistinctHashes) :
    (∀ front, front <+: calls → (front.foldl ApiKeyCall.run .new).Exact) ↔
      ∀ front call, front ++ [call] <+: calls →
        call.Fresh (front.foldl ApiKeyCall.run .new) := by
  refine foldl_good_iff (fun front store => store = front.foldl ApiKeyCall.run .new ∧
    store.Indexed) ApiKeyStore.Exact (fun _ store (call : ApiKeyCall) => call.Fresh store)
    ⟨rfl, ApiKeyStore.new_indexed⟩ (fun front store kept => kept.2.exact) ?_ ?_
  · rintro front call store inside ⟨rfl, indexed⟩ fresh
    have later := hashes _ inside
    rw [List.foldl_append] at later ⊢
    exact ⟨rfl, indexed.run (hashes front ((List.prefix_append _ _).trans inside)) call later fresh⟩
  · rintro front call store inside ⟨rfl, indexed⟩ stale
    exact indexed.not_exact stale

/-- A key of the first user under the id `k1`. -/
def keyWithHash (hash : String) : ApiKey :=
  ⟨"k1", Vector.replicate 20 1, hash, none, 60, none, none, 1000⟩

theorem distinctHashes_of_one {store : ApiKeyStore} (one : ∀ id key, store.get id = some key →
    id = "k1") : store.DistinctHashes :=
  fun id other key found first second _ => (one id key first).trans (one other found second).symm

/-- The first key, put in and replaced under another hash. -/
def rotation : List ApiKeyCall :=
  [.insert (keyWithHash "old"), .insert (keyWithHash "new")]

theorem rotation_hashes (front : List ApiKeyCall) (inside : front <+: rotation) :
    (front.foldl ApiKeyCall.run .new).DistinctHashes := by
  have empty (id : String) : ApiKeyStore.new.get id = none := Std.ExtTreeMap.getElem?_empty
  have cases := (List.mem_inits _ _).mpr inside
  simp only [rotation, List.inits, List.map_cons, List.map_nil, List.mem_cons, List.not_mem_nil,
    or_false] at cases
  refine distinctHashes_of_one fun id key stored => ?_
  rcases cases with rfl | rfl | rfl
  · rw [List.foldl_nil, empty] at stored
    contradiction
  · change (ApiKeyStore.new.insert (keyWithHash "old")).get id = _ at stored
    rw [ApiKeyStore.get_insert, empty] at stored
    split at stored
    · rename_i same
      exact same.symm
    · contradiction
  · change ((ApiKeyStore.new.insert (keyWithHash "old")).insert (keyWithHash "new")).get id = _
      at stored
    rw [ApiKeyStore.get_insert, ApiKeyStore.get_insert, empty] at stored
    split at stored
    · rename_i same
      exact same.symm
    · split at stored
      · rename_i same
        exact same.symm
      · contradiction

/-- The condition fails where a key is rotated. -/
theorem api_key_indexes_exact_iff_rotation :
    (∀ front, front <+: rotation → (front.foldl ApiKeyCall.run .new).Exact) ↔
      ∀ front call, front ++ [call] <+: rotation →
        call.Fresh (front.foldl ApiKeyCall.run .new) :=
  api_key_indexes_exact_iff rotation rotation_hashes

/-- The old hash still finds the rotated key. -/
theorem old_hash_still_found :
    (∀ front, front <+: rotation → (front.foldl ApiKeyCall.run .new).DistinctHashes) ∧
      (rotation.foldl ApiKeyCall.run .new).getByHash "old" = some (keyWithHash "new") ∧
      ¬ (rotation.foldl ApiKeyCall.run .new).Exact := by
  have found : (rotation.foldl ApiKeyCall.run .new).getByHash "old" = some (keyWithHash "new") := by
    have listed : (rotation.foldl ApiKeyCall.run .new).byHash["old"]? = some "k1" := by
      change (((∅ : Table String String).insert "old" "k1").insert "new" "k1")["old"]? = _
      rw [Table.getElem?_insert, if_neg (by decide), Table.getElem?_insert, if_pos rfl]
    have stored := ApiKeyStore.get_insert (ApiKeyStore.new.insert (keyWithHash "old"))
      (keyWithHash "new") "k1"
    rw [ApiKeyStore.getByHash, Table.findBy, listed]
    exact stored.trans (if_pos rfl)
  refine ⟨rotation_hashes, found, fun exact => ?_⟩
  have hash := ((exact.byHash "old" (keyWithHash "new")).mp found).2
  revert hash
  decide

end Perfdb
