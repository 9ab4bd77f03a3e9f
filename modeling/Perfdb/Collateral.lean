import Mathlib
import Perfdb.EventEffects

set_option autoImplicit false

namespace Perfdb

theorem BalanceCache.get_setRaw (cache : BalanceCache)
    (user token other held : Address) (amount locked available : FixedI128) :
    (cache.setRaw user token amount locked available).get other held =
      if (user, token) = (other, held) then some ⟨user, token, amount, locked, available⟩
      else cache.get other held :=
  Table.getElem?_insert _ _ _ _

section Movements

variable (user token : Address)

/-- A deposit or withdrawal of a user in a token. -/
def Event.MovesCollateral : Event → Prop
  | .collateralDeposited other held _ | .collateralWithdrawn other held _ =>
      (other, held) = (user, token)
  | _ => False

def Event.deposit : Event → Int
  | .collateralDeposited other held amount =>
      if (other, held) = (user, token) then amount.toInt else 0
  | _ => 0

def Event.withdrawal : Event → Int
  | .collateralWithdrawn other held amount =>
      if (other, held) = (user, token) then amount.toInt else 0
  | _ => 0

def deposits (events : List IndexedEvent) : Int :=
  (events.map fun indexed => indexed.event.deposit user token).sum

def withdrawals (events : List IndexedEvent) : Int :=
  (events.map fun indexed => indexed.event.withdrawal user token).sum

/-- Amounts are not negative, the running balance fits an `i128`, and never more is
withdrawn than has been deposited. -/
structure Covered (events : List IndexedEvent) : Prop where
  amounts : ∀ indexed ∈ events,
    0 ≤ indexed.event.deposit user token ∧ 0 ≤ indexed.event.withdrawal user token
  fits : ∀ front, front <+: events →
    deposits user token front - withdrawals user token front < 2 ^ 127
  covered : ∀ front, front <+: events → withdrawals user token front ≤ deposits user token front

/-- The balance is what the history says. -/
structure Conserved (events : List IndexedEvent) (cache : BalanceCache) : Prop where
  moved : (∃ indexed ∈ events, indexed.event.MovesCollateral user token) →
    ∃ amount, cache.get user token = some ⟨user, token, amount, 0, amount⟩ ∧
      amount.toInt = deposits user token events - withdrawals user token events
  still : ¬ (∃ indexed ∈ events, indexed.event.MovesCollateral user token) →
    cache.get user token = none

end Movements

section Step

variable {user token : Address}

theorem deposits_append_one (front : List IndexedEvent) (indexed : IndexedEvent) :
    deposits user token (front ++ [indexed]) =
      deposits user token front + indexed.event.deposit user token := by
  simp [deposits]

theorem withdrawals_append_one (front : List IndexedEvent) (indexed : IndexedEvent) :
    withdrawals user token (front ++ [indexed]) =
      withdrawals user token front + indexed.event.withdrawal user token := by
  simp [withdrawals]

/-- An event that does not move the collateral of a pair leaves its balance alone. -/
theorem onBalances_frame {indexed : IndexedEvent}
    (still : ¬ indexed.event.MovesCollateral user token) (cache : BalanceCache) :
    (indexed.onBalances cache).get user token = cache.get user token := by
  obtain ⟨blockNumber, blockTimestamp, txHash, txIndex, logIndex, event⟩ := indexed
  cases event with
  | collateralDeposited | collateralWithdrawn =>
      exact (BalanceCache.get_setRaw _ _ _ _ _ _ _ _).trans (if_neg still)
  | _ => rfl

theorem still_amounts {event : Event} (still : ¬ event.MovesCollateral user token) :
    event.deposit user token = 0 ∧ event.withdrawal user token = 0 := by
  cases event with
  | collateralDeposited => exact ⟨if_neg still, rfl⟩
  | collateralWithdrawn => exact ⟨rfl, if_neg still⟩
  | _ => exact ⟨rfl, rfl⟩

/-- Without any movement there is nothing to sum up. -/
theorem sums_of_still {events : List IndexedEvent}
    (still : ¬ ∃ indexed ∈ events, indexed.event.MovesCollateral user token) :
    deposits user token events = 0 ∧ withdrawals user token events = 0 := by
  have each (indexed : IndexedEvent) (member : indexed ∈ events) :=
    still_amounts fun moves => still ⟨indexed, member, moves⟩
  constructor
  · refine List.sum_eq_zero fun amount member => ?_
    obtain ⟨indexed, inside, rfl⟩ := List.mem_map.mp member
    exact (each indexed inside).1
  · refine List.sum_eq_zero fun amount member => ?_
    obtain ⟨indexed, inside, rfl⟩ := List.mem_map.mp member
    exact (each indexed inside).2

/-- The balance before a movement, an absent one counting as zero. -/
theorem Conserved.existing {events : List IndexedEvent} {cache : BalanceCache}
    (conserved : Conserved user token events cache) :
    ∃ amount : FixedI128,
      amount.toInt = deposits user token events - withdrawals user token events ∧
      (cache.get user token = some ⟨user, token, amount, 0, amount⟩ ∨
        (cache.get user token = none ∧ amount = 0)) := by
  by_cases moved : ∃ indexed ∈ events, indexed.event.MovesCollateral user token
  · obtain ⟨amount, found, sum⟩ := conserved.moved moved
    exact ⟨amount, sum, Or.inl found⟩
  · obtain ⟨none, taken⟩ := sums_of_still moved
    exact ⟨0, by rw [none, taken]; rfl, Or.inr ⟨conserved.still moved, rfl⟩⟩

theorem Conserved.event {events front : List IndexedEvent} {indexed : IndexedEvent}
    {cache : BalanceCache} (covered : Covered user token events)
    (inside : front ++ [indexed] <+: events) (conserved : Conserved user token front cache) :
    Conserved user token (front ++ [indexed]) (indexed.onBalances cache) := by
  by_cases moves : indexed.event.MovesCollateral user token
  · obtain ⟨amount, sum, existing⟩ := conserved.existing
    have positive := covered.amounts indexed (inside.subset (by simp))
    have fits := covered.fits _ inside
    have enough := covered.covered _ inside
    have before := covered.covered _ ((List.prefix_append front [indexed]).trans inside)
    refine ⟨fun _ => ?_, fun still => (still ⟨indexed, by simp, moves⟩).elim⟩
    rw [deposits_append_one, withdrawals_append_one] at fits enough ⊢
    obtain ⟨blockNumber, blockTimestamp, txHash, txIndex, logIndex, event⟩ := indexed
    cases event with
    | collateralDeposited other held added =>
        obtain ⟨rfl, rfl⟩ := Prod.mk.inj moves
        simp only [Event.deposit, Event.withdrawal, if_true] at positive fits enough ⊢
        have exact_sum : (amount + added).toInt = amount.toInt + added.toInt :=
          I128.toInt_add (by omega) (by omega)
        refine ⟨amount + added, ?_, by omega⟩
        rcases existing with found | ⟨absent, rfl⟩
        · simp [IndexedEvent.onBalances, BalanceCache.get_setRaw, found]
        · simp [IndexedEvent.onBalances, BalanceCache.get_setRaw, absent]
    | collateralWithdrawn other held taken =>
        obtain ⟨rfl, rfl⟩ := Prod.mk.inj moves
        simp only [Event.deposit, Event.withdrawal, if_true] at positive fits enough ⊢
        have exact_rest : (amount - taken).toInt = amount.toInt - taken.toInt :=
          I128.toInt_sub (by omega) (by omega)
        have kept : max (amount - taken) 0 = amount - taken :=
          I128.max_eq_left (by rw [I128.toInt_zero]; omega)
        refine ⟨amount - taken, ?_, by omega⟩
        rcases existing with found | ⟨absent, rfl⟩
        · simp [IndexedEvent.onBalances, BalanceCache.get_setRaw, found, kept]
        · have nothing : (0 : FixedI128) - taken = 0 :=
            I128.toInt_injective (by rw [exact_rest, I128.toInt_zero] at *; omega)
          rw [nothing] at kept ⊢
          simp [IndexedEvent.onBalances, BalanceCache.get_setRaw, absent, kept]
    | _ => exact moves.elim
  · have same : (∃ other ∈ front ++ [indexed], other.event.MovesCollateral user token) ↔
        ∃ other ∈ front, other.event.MovesCollateral user token := by
      simp [moves, or_and_right, exists_or]
    obtain ⟨none, taken⟩ := still_amounts moves
    constructor <;>
      rw [onBalances_frame moves, same]
    · rw [deposits_append_one, withdrawals_append_one, none, taken, add_zero, add_zero]
      exact conserved.moved
    · exact conserved.still

theorem covered_of_inits {events : List IndexedEvent}
    (amounts : ∀ indexed ∈ events,
      0 ≤ indexed.event.deposit user token ∧ 0 ≤ indexed.event.withdrawal user token)
    (each : ∀ front ∈ events.inits,
      deposits user token front - withdrawals user token front < 2 ^ 127 ∧
        withdrawals user token front ≤ deposits user token front) :
    Covered user token events where
  amounts := amounts
  fits front inside := (each front ((List.mem_inits _ _).mpr inside)).1
  covered front inside := (each front ((List.mem_inits _ _).mpr inside)).2

end Step

/-- Every balance is the sum of its deposits less the sum of its withdrawals, and exists
once there has been one. -/
theorem collateral_conserved (fmt : Wal.Format) (events : List IndexedEvent)
    (user token : Address) (covered : Covered user token events) (r t : Running)
    (empty : r.db.toStores = .new) (run : runLive fmt (events.map .event) r = .ok () t) :
    ((t.db.balances.get user token).isSome ↔
      ∃ indexed ∈ events, indexed.event.MovesCollateral user token) ∧
    (∀ balance, t.db.balances.get user token = some balance →
      balance.amount.toInt = deposits user token events - withdrawals user token events ∧
      balance.locked = 0 ∧ balance.available = balance.amount) ∧
    (∀ indexed later, PerfDb.processEvent fmt indexed t = .ok () later →
      ¬ indexed.event.MovesCollateral user token →
      later.db.balances.get user token = t.db.balances.get user token) := by
  have conserved : Conserved user token events t.db.balances := by
    rw [runLive_events events run]
    refine foldl_holds (fun front (db : PerfDb) => Conserved user token front db.balances) ?_ ?_
    · refine ⟨fun moved => by simp at moved, fun _ => ?_⟩
      rw [empty]
      exact Std.ExtTreeMap.getElem?_empty
    · intro front indexed later inside before
      rw [(applyEvent_effects indexed later).balances]
      exact before.event covered inside
  have known : (t.db.balances.get user token).isSome ↔
      ∃ indexed ∈ events, indexed.event.MovesCollateral user token := by
    by_cases moved : ∃ indexed ∈ events, indexed.event.MovesCollateral user token
    · obtain ⟨amount, found, _⟩ := conserved.moved moved
      simp only [found, Option.isSome_some, moved]
    · simp only [conserved.still moved, Option.isSome_none, Bool.false_eq_true, moved]
  refine ⟨known, ?_, ?_⟩
  · intro balance stored
    obtain ⟨amount, found, sum⟩ := conserved.moved (known.mp (by rw [stored]; rfl))
    obtain rfl := Option.some.inj (found.symm.trans stored)
    exact ⟨sum, rfl, rfl⟩
  · intro indexed later step still
    obtain ⟨s, _, rfl⟩ := PerfDb.processEvent_ok step
    change (PerfDb.applyEvent indexed (t.setWalState s).db).balances.get user token = _
    rw [(applyEvent_effects indexed _).balances, onBalances_frame still]
    rfl

/-- A deposit and the withdrawal of a part of it. -/
theorem collateral_conserved_withdrawal :
    ∃ db opened t, PerfDb.open_ Bincode.formats .stored ⟨"data", "wal", 1024, .none⟩ .fresh =
        .ok db opened ∧
      let user := Vector.replicate 20 1
      let token := Vector.replicate 20 2
      let events : List IndexedEvent :=
        [⟨5, 1700000000, Vector.replicate 32 0, 0, 0, .collateralDeposited user token 100⟩,
          ⟨6, 1700000012, Vector.replicate 32 0, 0, 0, .collateralWithdrawn user token 40⟩]
      runLive Bincode.format (events.map .event) (opened.running db) = .ok () t ∧
      ((t.db.balances.get user token).isSome ↔
        ∃ indexed ∈ events, indexed.event.MovesCollateral user token) ∧
      (∀ balance, t.db.balances.get user token = some balance →
        balance.amount.toInt = deposits user token events - withdrawals user token events ∧
        balance.locked = 0 ∧ balance.available = balance.amount) ∧
      (∀ indexed later, PerfDb.processEvent Bincode.format indexed t = .ok () later →
        ¬ indexed.event.MovesCollateral user token →
        later.db.balances.get user token = t.db.balances.get user token) := by
  obtain ⟨db, opened, run, stores, ready⟩ := PerfDb.open_blank Bincode.formats .stored
    ⟨"data", "wal", 1024, .none⟩ Disk.fresh_blank
  obtain ⟨t, live⟩ := runLive_returns Bincode.format _ ready
  exact ⟨db, opened, t, run, live, collateral_conserved Bincode.format _ _ _
    (covered_of_inits (by decide) (by decide)) _ t stores live⟩

end Perfdb
