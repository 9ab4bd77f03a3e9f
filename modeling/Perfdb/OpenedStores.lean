import Mathlib
import Perfdb.EventEffects
import Perfdb.Opening
import Perfdb.StoreKeys

set_option autoImplicit false

namespace Perfdb

namespace Wal

end Wal

section Keyed

theorem Stores.Keyed.replayed {stores : Stores} (keyed : stores.Keyed) (snapBlock : UInt64)
    (entry : WalEntry) : (replayWalEntry snapBlock entry stores).Keyed := by
  cases entry with
  | priceTick | checkpoint | candleUpdate | batchEnd =>
      exact ⟨keyed.positions, keyed.orders, keyed.balances, keyed.users, keyed.traderStats⟩
  | balanceUpdate user token amount locked available =>
      exact ⟨keyed.positions, keyed.orders, BalanceCache.keyed_setRaw keyed.balances _ _ _ _ _,
        keyed.users, keyed.traderStats⟩
  | indexedEvent indexed =>
      simp only [replayWalEntry]
      split
      · exact keyed
      · -- but for the positions, replay does what processing does
        have effects := replayEvent_effects indexed stores
        have live := applyEvent_effects indexed (.ofStores stores)
        have lived : ((PerfDb.ofStores stores).applyEvent indexed).toStores.Keyed :=
          Stores.Keyed.event keyed indexed
        refine ⟨?_, ?_, ?_, ?_, ?_⟩
        · obtain ⟨blockNumber, blockTimestamp, txHash, txIndex, logIndex, event⟩ := indexed
          cases event with
          | positionOpened => exact PositionTable.keyed_insert keyed.positions _
          | positionClosed _ _ _ _ _ _ isFullClose =>
              refine PositionTable.keyed_update keyed.positions _ fun p => ?_
              cases isFullClose <;> rfl
          | liquidation => exact PositionTable.keyed_update keyed.positions _ fun p => rfl
          | _ => exact keyed.positions
        · rw [effects.orders]
          exact live.orders ▸ lived.orders
        · rw [effects.balances]
          exact live.balances ▸ lived.balances
        · rw [effects.users]
          exact live.users ▸ lived.users
        · rw [effects.traderStats]
          exact live.traderStats ▸ lived.traderStats

end Keyed

end Perfdb
