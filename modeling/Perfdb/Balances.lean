import Mathlib
import Perfdb.Inverted
import Perfdb.Types

set_option autoImplicit false

namespace Perfdb

/-- In-memory per-user-per-token balance cache. -/
structure BalanceCache where
  balances : Table (Address × Address) Balance
  userTokens : Table Address (KeySet Address)

namespace BalanceCache

def new : BalanceCache := ⟨∅, ∅⟩

/-- Set a full balance (from WAL replay or indexer event). -/
def set (cache : BalanceCache) (balance : Balance) : BalanceCache where
  userTokens := cache.userTokens.addTo balance.userAddress balance.token
  balances := cache.balances.insert (balance.userAddress, balance.token) balance

def setRaw (cache : BalanceCache) (user token : Address) (amount locked available : FixedI128) :
    BalanceCache :=
  cache.set ⟨user, token, amount, locked, available⟩

def get (cache : BalanceCache) (user token : Address) : Option Balance :=
  cache.balances[(user, token)]?

/-- Update a balance in place. Returns whether it exists. -/
def update (cache : BalanceCache) (user token : Address) (f : Balance → Balance) :
    Bool × BalanceCache :=
  (cache.balances.contains (user, token),
    { cache with balances := cache.balances.modify (user, token) f })

def userBalances (order : Iteration) (cache : BalanceCache) (user : Address) : List Balance :=
  match cache.userTokens[user]? with
  | some tokens => (order.arrange tokens.toList).filterMap fun t => cache.balances[(user, t)]?
  | none => []

def userTokenList (order : Iteration) (cache : BalanceCache) (user : Address) : List Address :=
  match cache.userTokens[user]? with
  | some tokens => order.arrange tokens.toList
  | none => []

/-- Remove a specific balance. Returns the removed balance if it existed. -/
def remove (cache : BalanceCache) (user token : Address) : Option Balance × BalanceCache :=
  match cache.balances[(user, token)]? with
  | none => (none, cache)
  | some bal => (some bal, {
      balances := cache.balances.erase (user, token)
      userTokens := cache.userTokens.removeFrom user token })

/-- Total number of balance entries. -/
def count (cache : BalanceCache) : Nat := cache.balances.size

def userCount (cache : BalanceCache) : Nat := cache.userTokens.size

/-- All balances (for snapshots, diagnostics). -/
def all (order : Iteration) (cache : BalanceCache) : List Balance := cache.balances.all order

end BalanceCache

end Perfdb
