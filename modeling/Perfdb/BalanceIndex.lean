import Mathlib
import Perfdb.Balances
import Perfdb.Histories
import Perfdb.Sections

set_option autoImplicit false

namespace Perfdb

structure BalanceChange where
  run : Balance → Balance
  keepsUser : ∀ b, (run b).userAddress = b.userAddress
  keepsToken : ∀ b, (run b).token = b.token

inductive BalanceCall where
  | set (balance : Balance)
  | setRaw (user token : Address) (amount locked available : FixedI128)
  | update (user token : Address) (change : BalanceChange)
  | remove (user token : Address)

def BalanceCall.run (cache : BalanceCache) : BalanceCall → BalanceCache
  | .set balance => cache.set balance
  | .setRaw user token amount locked available => cache.setRaw user token amount locked available
  | .update user token change => (cache.update user token change.run).2
  | .remove user token => (cache.remove user token).2

def Balance.key (b : Balance) : Address × Address := (b.userAddress, b.token)

namespace BalanceCache

/-- The tokens are those of the balances, and every balance is where it belongs. -/
structure Indexed (cache : BalanceCache) : Prop where
  sectioned : Table.Sectioned cache.userTokens cache.balances
  keyed : cache.balances.Keyed Balance.key

theorem new_indexed : new.Indexed := ⟨Table.Sectioned.empty, Table.Keyed.empty _⟩

section Step

variable {cache : BalanceCache}

theorem Indexed.set (indexed : cache.Indexed) (balance : Balance) : (cache.set balance).Indexed :=
  ⟨indexed.sectioned.insert _ _ _, Table.Keyed.insert indexed.keyed balance⟩

theorem Indexed.update (indexed : cache.Indexed) (user token : Address) (change : BalanceChange) :
    (cache.update user token change.run).2.Indexed := by
  refine ⟨indexed.sectioned.modify _ _ _, Table.Keyed.modify indexed.keyed _ fun b => ?_⟩
  rw [Balance.key, change.keepsUser, change.keepsToken, Balance.key]

theorem Indexed.remove (indexed : cache.Indexed) (user token : Address) :
    (cache.remove user token).2.Indexed := by
  unfold BalanceCache.remove
  cases cache.balances[(user, token)]? with
  | none => exact indexed
  | some bal => exact ⟨indexed.sectioned.erase _ _, Table.Keyed.erase indexed.keyed _⟩

theorem Indexed.run (indexed : cache.Indexed) (call : BalanceCall) : (call.run cache).Indexed := by
  cases call with
  | set balance => exact indexed.set balance
  | setRaw user token amount locked available => exact indexed.set _
  | update user token change => exact indexed.update user token change
  | remove user token => exact indexed.remove user token

theorem userBalances_eq (order : Iteration) (cache : BalanceCache) (user : Address) :
    cache.userBalances order user =
      (Table.sectionOf order cache.userTokens user).filterMap fun t => cache.get user t := by
  unfold userBalances Table.sectionOf
  cases cache.userTokens[user]? <;> rfl

theorem userTokenList_eq (order : Iteration) (cache : BalanceCache) (user : Address) :
    cache.userTokenList order user = Table.sectionOf order cache.userTokens user := by
  unfold userTokenList Table.sectionOf
  cases cache.userTokens[user]? <;> rfl

theorem Indexed.mem_tokens (indexed : cache.Indexed) (order : Iteration) (user token : Address) :
    token ∈ cache.userTokenList order user ↔ (cache.get user token).isSome := by
  rw [userTokenList_eq, Table.mem_sectionOf]
  exact indexed.sectioned.listed user token

theorem Indexed.mem_balances (indexed : cache.Indexed) (order : Iteration) (user : Address)
    (b : Balance) :
    b ∈ cache.userBalances order user ↔ ∃ token, cache.get user token = some b := by
  rw [userBalances_eq, List.mem_filterMap]
  constructor
  · rintro ⟨token, _, found⟩
    exact ⟨token, found⟩
  · rintro ⟨token, found⟩
    refine ⟨token, ?_, found⟩
    rw [← userTokenList_eq, indexed.mem_tokens, found]
    rfl

theorem Indexed.nodup_balances (indexed : cache.Indexed) (order : Iteration) (user : Address) :
    (cache.userBalances order user).Nodup := by
  rw [userBalances_eq]
  apply (Table.nodup_sectionOf order _ user).filterMap
  intro token other b first second
  have here := congrArg Prod.snd (indexed.keyed _ b first)
  have there := congrArg Prod.snd (indexed.keyed _ b second)
  exact here.symm.trans there

end Step

end BalanceCache

/-- After any calls the tokens and balances of every user are those that are stored, each once,
the users counted are those with a balance, and every balance names its own key. -/
theorem balance_index_exact (order : Iteration) (calls : List BalanceCall) :
    let cache := calls.foldl BalanceCall.run .new
    (∀ user, (cache.userBalances order user).Nodup ∧
      ∀ b, b ∈ cache.userBalances order user ↔ ∃ token, cache.get user token = some b) ∧
    (∀ user, (cache.userTokenList order user).Nodup ∧
      ∀ token, token ∈ cache.userTokenList order user ↔ (cache.get user token).isSome) ∧
    cache.userCount = {user | ∃ token, (cache.get user token).isSome}.ncard ∧
    ∀ user token b, cache.get user token = some b → b.userAddress = user ∧ b.token = token := by
  intro cache
  have indexed : cache.Indexed :=
    foldl_holds (fun _ => BalanceCache.Indexed) BalanceCache.new_indexed
      fun _ call _ _ indexed => indexed.run call
  refine ⟨fun user => ⟨indexed.nodup_balances order user, indexed.mem_balances order user⟩,
    fun user => ⟨?_, indexed.mem_tokens order user⟩,
    indexed.sectioned.size_eq, fun user token b found => ?_⟩
  · rw [BalanceCache.userTokenList_eq]
    exact Table.nodup_sectionOf order _ user
  · exact Prod.mk.inj (indexed.keyed (user, token) b found)

end Perfdb
