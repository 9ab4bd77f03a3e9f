import Mathlib
import Perfdb.Histories
import Perfdb.Relational
import Perfdb.UniqueIndex

set_option autoImplicit false

namespace Perfdb

/-- The calls that change the users; updates keep the address. -/
inductive UserCall where
  | upsert (user : User)
  | update (address : Address) (f : User → User) (keeps : ∀ user, (f user).address = user.address)
  | setReferralCode (address : Address) (code : String)
  | ensure (address : Address) (now : UInt64)
  | setVault (address vault : Address)
  | remove (address : Address)

def User.code (user : User) : Option String := user.referralCode.filter fun code => !code.isEmpty

namespace UserCall

def run (store : UserStore) : UserCall → UserStore
  | .upsert user => store.upsert user
  | .update address f _ => (store.update address f).2
  | .setReferralCode address code => (store.setReferralCode address code).2
  | .ensure address now => store.ensure address now
  | .setVault address vault => store.setVault address vault
  | .remove address => (store.remove address).2

def KeepsCode (store : UserStore) : UserCall → Prop
  | .upsert user => ∀ old, store.get user.address = some old → old.code ≠ none →
      user.code = old.code
  | .update _ _ _ | .setReferralCode _ _ | .ensure _ _ | .setVault _ _ | .remove _ => True

end UserCall

namespace UserStore

/-- No two users have the same code. -/
def DistinctCodes (store : UserStore) : Prop := Table.Distinct User.code store.users

/-- A code that is not empty finds the user who has it, and no other user. -/
def MirrorsCodes (store : UserStore) : Prop :=
  ∀ code, code.isEmpty = false → ∀ user, store.findByReferralCode code = some user ↔
    (∃ address, store.get address = some user) ∧ user.referralCode = some code

/-- The index as the calls keep it. -/
structure Indexed (store : UserStore) : Prop where
  keyed : ∀ address user, store.get address = some user → user.address = address
  codes : Table.Points User.code store.byReferralCode store.users

section Step

variable {store : UserStore} {user : User} {address : Address}

theorem code_eq_some {code : String} :
    user.code = some code ↔ user.referralCode = some code ∧ code.isEmpty = false := by
  simp [User.code, Option.filter_eq_some_iff]

theorem Indexed.mirrors (indexed : store.Indexed) : store.MirrorsCodes := by
  intro code filled user
  refine (indexed.codes.findBy_iff code user).trans ?_
  simp only [code_eq_some, filled, and_true, exists_and_right]
  rfl

theorem getElem?_dropCode (index : Table String Address) (user : User) (code : String) :
    (dropCode index user.referralCode)[code]? =
      if user.code = some code then none else index[code]? := by
  rw [User.code]
  cases user.referralCode with
  | none => rfl
  | some old =>
      cases empty : old.isEmpty with
      | true => simp [dropCode, empty, Option.filter]
      | false =>
          simp only [dropCode, empty, Option.filter, Bool.false_eq_true, if_false,
            Std.ExtTreeMap.getElem?_erase, Table.compare_eq_iff]
          simp

theorem getElem?_addCode (index : Table String Address) (address : Address) (user : User)
    (code : String) :
    (addCode index address user.referralCode)[code]? =
      if user.code = some code then some address else index[code]? := by
  rw [User.code]
  cases user.referralCode with
  | none => rfl
  | some new =>
      cases empty : new.isEmpty with
      | true => simp [addCode, empty, Option.filter]
      | false =>
          simp only [addCode, empty, Option.filter, Bool.false_eq_true, if_false,
            Table.getElem?_insert]
          simp

theorem codeAt_eq (store : UserStore) (address : Address) :
    Table.codeAt User.code store.users address = (store.get address).bind User.code := rfl

theorem Indexed.congr {users : Table Address User} (indexed : store.Indexed)
    (same : ∀ address : Address,
      users[address]?.bind User.code = (store.get address).bind User.code)
    (keyed : ∀ (address : Address) (user : User), users[address]? = some user →
      user.address = address) :
    Indexed ⟨users, store.byReferralCode⟩ :=
  ⟨keyed, indexed.codes.congr same⟩

theorem get_upsert (store : UserStore) (user : User) (address : Address) :
    (store.upsert user).get address =
      if user.address = address then some user else store.get address :=
  Table.getElem?_insert _ _ _ _

theorem Indexed.upsert (indexed : store.Indexed) (codes : (store.upsert user).DistinctCodes)
    (keeps : UserCall.KeepsCode store (.upsert user)) : (store.upsert user).Indexed := by
  refine ⟨fun address found stored => ?_, ?_⟩
  · rw [get_upsert] at stored
    split at stored
    · rename_i same
      rw [← Option.some.inj stored, same]
    · exact indexed.keyed address found stored
  · refine indexed.codes.change user.address codes (fun other apart => ?_) fun code => ?_
    · rw [codeAt_eq, codeAt_eq, get_upsert, if_neg apart.symm]
    · rw [codeAt_eq, codeAt_eq, get_upsert, if_pos rfl, Option.bind_some]
      refine (getElem?_addCode store.byReferralCode user.address user code).trans ?_
      by_cases taken : user.code = some code
      · rw [if_pos taken, if_pos taken]
      · rw [if_neg taken, if_neg taken, if_neg]
        intro given
        obtain ⟨old, stored, coded⟩ := Option.bind_eq_some_iff.mp given
        exact taken ((keeps old stored (by simp [coded])).trans coded)

theorem Indexed.update (indexed : store.Indexed) (address : Address) {f : User → User}
    (keeps : ∀ user, (f user).address = user.address)
    (codes : (store.update address f).2.DistinctCodes) : (store.update address f).2.Indexed := by
  unfold UserStore.update at codes ⊢
  cases stored : store.users[address]? with
  | none => exact indexed
  | some user =>
      rw [stored] at codes
      simp only at codes ⊢
      have get (other : Address) : (store.users.insert address (f user))[other]? =
          if address = other then some (f user) else store.users[other]? :=
        Table.getElem?_insert _ _ _ _
      have keyed (other : Address) (found : User)
          (there : (store.users.insert address (f user))[other]? = some found) :
          found.address = other := by
        rw [get] at there
        split at there
        · rename_i same
          rw [← Option.some.inj there, keeps, ← same]
          exact indexed.keyed address user stored
        · exact indexed.keyed other found there
      split
      · refine ⟨keyed, indexed.codes.change address codes (fun other apart => ?_) fun code => ?_⟩
        · rw [Table.codeAt, Table.codeAt, get, if_neg apart.symm]
        · rw [Table.codeAt, Table.codeAt, get, if_pos rfl, stored, Option.bind_some,
            Option.bind_some, getElem?_addCode, getElem?_dropCode]
      · rename_i kept
        refine indexed.congr (fun other => ?_) keyed
        rw [get]
        split
        · rename_i same
          rw [← same, UserStore.get, stored, Option.bind_some, Option.bind_some, User.code,
            User.code, not_not.mp kept]
        · rfl

theorem Indexed.ensure (indexed : store.Indexed) (address : Address) (now : UInt64) :
    (store.ensure address now).Indexed := by
  refine indexed.congr (fun other => ?_) fun other found there => ?_
  · rw [Table.getElem?_modify, Table.getElem?_insertIfNew, Table.getElem?_insertIfNew, get]
    by_cases same : address = other
    · subst same
      cases store.users[address]? <;> simp [User.code]
    · simp [same]
  · rw [Table.getElem?_modify, Table.getElem?_insertIfNew, Table.getElem?_insertIfNew] at there
    by_cases same : address = other
    · subst same
      simp only [if_true, Option.map_some, Option.some.injEq] at there
      subst there
      cases stored : store.users[address]? with
      | none => rfl
      | some user => exact indexed.keyed address user stored
    · simp only [same, if_false] at there
      exact indexed.keyed other found there

theorem Indexed.setVault (indexed : store.Indexed) (address vault : Address) :
    (store.setVault address vault).Indexed := by
  refine indexed.congr (fun other => ?_) fun other found there => ?_
  · rw [Table.getElem?_modify, get]
    split
    · rename_i same
      rw [← same]
      cases store.users[address]? <;> simp [User.code]
    · rfl
  · rw [Table.getElem?_modify] at there
    split at there
    · rename_i same
      obtain ⟨user, stored, rfl⟩ := Option.map_eq_some_iff.mp there
      exact same ▸ indexed.keyed address user stored
    · exact indexed.keyed other found there

theorem Indexed.remove (indexed : store.Indexed) (codes : store.DistinctCodes)
    (address : Address) : (store.remove address).2.Indexed := by
  unfold UserStore.remove
  cases stored : store.users[address]? with
  | none => exact indexed
  | some user =>
      have gone (other : Address) : (store.users.erase address)[other]? =
          if address = other then none else store.users[other]? := by
        rw [Std.ExtTreeMap.getElem?_erase]
        simp only [Table.compare_eq_iff]
      refine ⟨fun other found there => ?_, indexed.codes.change address
        (codes.mono fun other code found => ?_) (fun other apart => ?_) fun code => ?_⟩
      · rw [get, gone] at there
        split at there
        · contradiction
        · exact indexed.keyed other found there
      · rw [Table.codeAt, gone] at found
        split at found
        · contradiction
        · exact found
      · rw [Table.codeAt, Table.codeAt, gone, if_neg apart.symm]
      · rw [Table.codeAt, Table.codeAt, gone, if_pos rfl, stored, Option.bind_some,
          getElem?_dropCode]
        simp

/-- Each call keeps the index, if no code is given up by replacing its user. -/
theorem Indexed.run (indexed : store.Indexed) (codes : store.DistinctCodes) (call : UserCall)
    (later : (call.run store).DistinctCodes) (keeps : call.KeepsCode store) :
    (call.run store).Indexed := by
  cases call with
  | upsert user => exact indexed.upsert later keeps
  | update address f same => exact indexed.update address same later
  | setReferralCode address code => exact indexed.update address (fun _ => rfl) later
  | ensure address now => exact indexed.ensure address now
  | setVault address vault => exact indexed.setVault address vault
  | remove address => exact indexed.remove codes address

/-- The code of a user who has been replaced leads to the replacement. -/
theorem Indexed.not_mirrors (indexed : store.Indexed) {call : UserCall}
    (changes : ¬ call.KeepsCode store) : ¬ (call.run store).MirrorsCodes := by
  intro mirrors
  cases call with
  | upsert user =>
      simp only [UserCall.KeepsCode, Classical.not_forall] at changes
      obtain ⟨old, stored, coded, other⟩ := changes
      obtain ⟨code, own⟩ := Option.ne_none_iff_exists'.mp coded
      have filled := (code_eq_some.mp own).2
      have free : ¬ user.code = some code := fun same => other (same.trans own.symm)
      have listed : store.byReferralCode[code]? = some user.address :=
        (indexed.codes code user.address).mpr (by
          rw [codeAt_eq, stored, Option.bind_some, own])
      have still : (store.upsert user).byReferralCode[code]? = some user.address :=
        (getElem?_addCode store.byReferralCode user.address user code).trans
          ((if_neg free).trans listed)
      have found : (store.upsert user).findByReferralCode code = some user := by
        rw [findByReferralCode, still]
        exact (get_upsert store user user.address).trans (if_pos rfl)
      exact free (code_eq_some.mpr ⟨((mirrors code filled user).mp found).2, filled⟩)
  | update | setReferralCode | ensure | setVault | remove => exact changes trivial

theorem new_indexed : new.Indexed := by
  refine ⟨fun address user stored => ?_, Table.points_empty⟩
  rw [get, new, Std.ExtTreeMap.getElem?_empty] at stored
  cases stored

end Step

end UserStore

/-- Lookups by referral code find the users who have the codes, at every point of a run,
exactly when no user with a code is replaced by one with another code or none. -/
theorem referral_codes_mirror_iff (calls : List UserCall)
    (codes : ∀ front, front <+: calls → (front.foldl UserCall.run .new).DistinctCodes) :
    (∀ front, front <+: calls → (front.foldl UserCall.run .new).MirrorsCodes) ↔
      ∀ front call, front ++ [call] <+: calls →
        call.KeepsCode (front.foldl UserCall.run .new) := by
  refine foldl_good_iff (fun front store => store = front.foldl UserCall.run .new ∧
    store.Indexed) UserStore.MirrorsCodes (fun _ store (call : UserCall) => call.KeepsCode store)
    ⟨rfl, UserStore.new_indexed⟩ (fun front store kept => kept.2.mirrors) ?_ ?_
  · rintro front call store inside ⟨rfl, indexed⟩ keeps
    have later := codes _ inside
    rw [List.foldl_append] at later ⊢
    exact ⟨rfl, indexed.run (codes front ((List.prefix_append _ _).trans inside)) call later keeps⟩
  · rintro front call store inside ⟨rfl, indexed⟩ changes
    exact indexed.not_mirrors changes

def userWithCode (code : String) : User :=
  ⟨Vector.replicate 20 1, none, some code, none, "bronze", 0, 1700000000, none, none⟩

/-- One user, put in and replaced by one with another code. -/
def codeChange : List UserCall := [.upsert (userWithCode "OLD"), .upsert (userWithCode "NEW")]

theorem codeChange_codes (front : List UserCall) (inside : front <+: codeChange) :
    (front.foldl UserCall.run .new).DistinctCodes := by
  have empty (address : Address) : UserStore.new.get address = none :=
    Std.ExtTreeMap.getElem?_empty
  have one (address : Address) (user : User)
      (stored : (front.foldl UserCall.run .new).get address = some user) :
      address = Vector.replicate 20 1 := by
    have cases := (List.mem_inits _ _).mpr inside
    simp only [codeChange, List.inits, List.map_cons, List.map_nil, List.mem_cons,
      List.not_mem_nil, or_false] at cases
    by_contra apart
    rcases cases with rfl | rfl | rfl
    · rw [List.foldl_nil, empty] at stored
      cases stored
    · change (UserStore.new.upsert (userWithCode "OLD")).get address = _ at stored
      rw [UserStore.get_upsert, if_neg (fun same => apart same.symm), empty] at stored
      cases stored
    · change ((UserStore.new.upsert (userWithCode "OLD")).upsert (userWithCode "NEW")).get
        address = _ at stored
      rw [UserStore.get_upsert, if_neg (fun same => apart same.symm), UserStore.get_upsert,
        if_neg (fun same => apart same.symm), empty] at stored
      cases stored
  intro code address other first second
  obtain ⟨user, stored, _⟩ := Option.bind_eq_some_iff.mp first
  obtain ⟨found, there, _⟩ := Option.bind_eq_some_iff.mp second
  exact (one address user stored).trans (one other found there).symm

/-- The condition fails where a user is replaced. -/
theorem referral_codes_mirror_iff_change :
    (∀ front, front <+: codeChange → (front.foldl UserCall.run .new).MirrorsCodes) ↔
      ∀ front call, front ++ [call] <+: codeChange →
        call.KeepsCode (front.foldl UserCall.run .new) :=
  referral_codes_mirror_iff codeChange codeChange_codes

/-- The code that was given up still finds the user. -/
theorem old_code_still_found :
    (∀ front, front <+: codeChange → (front.foldl UserCall.run .new).DistinctCodes) ∧
      (codeChange.foldl UserCall.run .new).findByReferralCode "OLD" = some (userWithCode "NEW") ∧
      ¬ (codeChange.foldl UserCall.run .new).MirrorsCodes := by
  have found : (codeChange.foldl UserCall.run .new).findByReferralCode "OLD" =
      some (userWithCode "NEW") := by
    have listed : (codeChange.foldl UserCall.run .new).byReferralCode["OLD"]? =
        some (Vector.replicate 20 1) := by
      change (((∅ : Table String Address).insert "OLD" (Vector.replicate 20 1)).insert "NEW"
        (Vector.replicate 20 1))["OLD"]? = _
      rw [Table.getElem?_insert, if_neg (by decide), Table.getElem?_insert, if_pos rfl]
    have stored := UserStore.get_upsert (UserStore.new.upsert (userWithCode "OLD"))
      (userWithCode "NEW") (Vector.replicate 20 1)
    rw [UserStore.findByReferralCode, listed]
    exact stored.trans (if_pos rfl)
  refine ⟨codeChange_codes, found, fun mirrors => ?_⟩
  have code := ((mirrors "OLD" (by decide) (userWithCode "NEW")).mp found).2
  revert code
  decide

end Perfdb
