import Mathlib
import Perfdb.Table
import Perfdb.Types

set_option autoImplicit false

namespace Perfdb

/-- In-memory user store with a referral code index. -/
structure UserStore where
  users : Table Address User
  byReferralCode : Table String Address

namespace UserStore

def new : UserStore := ⟨∅, ∅⟩

/-- Insert or replace a user. Updates the referral code index. -/
def upsert (store : UserStore) (user : User) : UserStore where
  byReferralCode :=
    match user.referralCode with
    | some code =>
        if code.isEmpty then store.byReferralCode
        else store.byReferralCode.insert code user.address
    | none => store.byReferralCode
  users := store.users.insert user.address user

def get (store : UserStore) (address : Address) : Option User := store.users[address]?

/-- The index entries of a code; an empty code has none. -/
def dropCode (index : Table String Address) : Option String → Table String Address
  | some code => if code.isEmpty then index else index.erase code
  | none => index

def addCode (index : Table String Address) (address : Address) :
    Option String → Table String Address
  | some code => if code.isEmpty then index else index.insert code address
  | none => index

/-- Update a user in place. Returns whether the user exists. -/
def update (store : UserStore) (address : Address) (f : User → User) : Bool × UserStore :=
  match store.users[address]? with
  | some user =>
      let changed := f user
      (true, {
        users := store.users.insert address changed
        byReferralCode :=
          if user.referralCode ≠ changed.referralCode then
            addCode (dropCode store.byReferralCode user.referralCode) address changed.referralCode
          else store.byReferralCode })
  | none => (false, store)

/-- Ensure a user exists. If not, create with defaults. -/
def ensure (store : UserStore) (address : Address) (now : UInt64) : UserStore :=
  { store with
    users := (store.users.insertIfNew address
      { address
        vaultAddress := none
        referralCode := none
        referredBy := none
        tier := "bronze"
        feeDiscountBps := 0
        createdAt := now
        firstTradeAt := none
        lastActiveAt := some now }).modify address fun user =>
          { user with lastActiveAt := some now } }

def findByReferralCode (store : UserStore) (code : String) : Option User := do
  let address ← store.byReferralCode[code]?
  store.get address

def setVault (store : UserStore) (address vault : Address) : UserStore :=
  { store with
    users := store.users.modify address fun user => { user with vaultAddress := some vault } }

/-- Set a user's referral code. Returns whether the user exists. -/
def setReferralCode (store : UserStore) (address : Address) (code : String) : Bool × UserStore :=
  store.update address fun user => { user with referralCode := some code }

def remove (store : UserStore) (address : Address) : Option User × UserStore :=
  match store.users[address]? with
  | some user =>
      (some user, {
        users := store.users.erase address
        byReferralCode := dropCode store.byReferralCode user.referralCode })
  | none => (none, store)

/-- All users (for snapshots, diagnostics). -/
def all (order : Iteration) (store : UserStore) : List User := store.users.all order

end UserStore

/-- Indexer checkpoint state. -/
structure CheckpointStore where
  lastBlock : UInt64
  lastBlockTimestamp : UInt64
  lastBlockHash : String
  deriving DecidableEq

/-- Read-only snapshot of the checkpoint state. -/
structure Checkpoint where
  lastBlock : UInt64
  lastBlockHash : String
  lastBlockTimestamp : UInt64
  deriving DecidableEq

namespace CheckpointStore

def empty : CheckpointStore := ⟨0, 0, ""⟩

def snapshot (store : CheckpointStore) : Checkpoint :=
  ⟨store.lastBlock, store.lastBlockHash, store.lastBlockTimestamp⟩

def save (_ : CheckpointStore) (block : UInt64) (blockHash : String)
    (blockTimestamp : UInt64) : CheckpointStore :=
  ⟨block, blockTimestamp, blockHash⟩

def advanceBlock (store : CheckpointStore) (block : UInt64) : CheckpointStore :=
  { store with lastBlock := block }

end CheckpointStore

end Perfdb
