import Mathlib
import Perfdb.Collateral

set_option autoImplicit false

namespace Perfdb

/-- An event that is processed, or replayed. -/
inductive Processed where
  | live (indexed : IndexedEvent)
  | replayed (indexed : IndexedEvent)

namespace Processed

def indexed : Processed → IndexedEvent
  | .live indexed | .replayed indexed => indexed

def step (db : PerfDb) : Processed → PerfDb
  | .live indexed => db.applyEvent indexed
  | .replayed indexed => { db with toStores := replayEvent indexed db.toStores }

/-- A deposit to the balance leaves no less than what is locked. -/
def Restores (user token : Address) (db : PerfDb) (item : Processed) : Prop :=
  match item.indexed.event with
  | .collateralDeposited other held amount => (other, held) = (user, token) →
      ∀ b, db.balances.get user token = some b → b.locked ≤ b.amount + amount
  | _ => True

end Processed

/-- What is available is what is not locked, and nothing where more is locked than there is. -/
def Clamped (user token : Address) (db : PerfDb) : Prop :=
  ∃ b, db.balances.get user token = some b ∧
    b.available.toInt = max 0 (b.amount.toInt - b.locked.toInt)

section Step

variable {user token : Address} {db : PerfDb} {item : Processed}

theorem Processed.step_balances (db : PerfDb) (item : Processed) :
    (item.step db).balances = item.indexed.onBalances db.balances := by
  cases item with
  | live indexed => exact (applyEvent_effects indexed db).balances
  | replayed indexed => exact (replayEvent_effects indexed db.toStores).balances

namespace I128

theorem toInt_bounds (x : I128) : -2 ^ 127 ≤ x.toInt ∧ x.toInt < 2 ^ 127 :=
  ⟨BitVec.le_toInt x.bits, BitVec.toInt_lt⟩

theorem toInt_max (x y : I128) : (max x y).toInt = max x.toInt y.toInt := by
  change (if y.toInt < x.toInt then x else y).toInt = _
  split <;> omega

/-- A difference of numbers that are not negative is exact. -/
theorem toInt_sub_of_nonneg {x y : I128} (first : 0 ≤ x.toInt) (second : 0 ≤ y.toInt) :
    (x - y).toInt = x.toInt - y.toInt := by
  have above := x.toInt_bounds
  have below := y.toInt_bounds
  exact toInt_sub (by omega) (by omega)

end I128

/-- The balance as deposits and withdrawals keep it. -/
structure Sound (user token : Address) (db : PerfDb) : Prop where
  clamped : Clamped user token db
  amounts : ∀ b, db.balances.get user token = some b → 0 ≤ b.amount.toInt ∧ 0 ≤ b.locked.toInt

theorem Sound.of_get {b : Balance} (found : db.balances.get user token = some b)
    (amount : 0 ≤ b.amount.toInt) (locked : 0 ≤ b.locked.toInt)
    (available : b.available.toInt = max 0 (b.amount.toInt - b.locked.toInt)) :
    Sound user token db :=
  ⟨⟨b, found, available⟩, fun _ other => Option.some.inj (found.symm.trans other) ▸
    ⟨amount, locked⟩⟩

theorem step_deposit (item : Processed) {amount : FixedI128} {b : Balance}
    (deposits : item.indexed.event = .collateralDeposited user token amount)
    (found : db.balances.get user token = some b) :
    (item.step db).balances.get user token = some ⟨user, token, b.amount + amount, b.locked,
      b.amount + amount - b.locked⟩ := by
  rw [item.step_balances, IndexedEvent.onBalances, deposits]
  simp [BalanceCache.get_setRaw, found]

theorem step_withdrawal (item : Processed) {amount : FixedI128} {b : Balance}
    (withdraws : item.indexed.event = .collateralWithdrawn user token amount)
    (found : db.balances.get user token = some b) :
    (item.step db).balances.get user token = some ⟨user, token, max (b.amount - amount) 0,
      b.locked, max (max (b.amount - amount) 0 - b.locked) 0⟩ := by
  rw [item.step_balances, IndexedEvent.onBalances, withdraws]
  simp [BalanceCache.get_setRaw, found]

theorem Sound.step (sound : Sound user token db)
    (nonneg : 0 ≤ item.indexed.event.deposit user token ∧
      0 ≤ item.indexed.event.withdrawal user token)
    (restores : item.Restores user token db) : Sound user token (item.step db) := by
  obtain ⟨b, found, available⟩ := sound.clamped
  obtain ⟨amount, locked⟩ := sound.amounts b found
  by_cases moves : item.indexed.event.MovesCollateral user token
  · cases event : item.indexed.event with
    | collateralDeposited other held added =>
        rw [event] at moves nonneg
        obtain ⟨rfl, rfl⟩ := Prod.mk.inj moves
        rw [Processed.Restores, event] at restores
        have enough : b.locked.toInt ≤ (b.amount + added).toInt := restores rfl b found
        refine Sound.of_get (step_deposit item event found) (locked.trans enough) locked ?_
        rw [I128.toInt_sub_of_nonneg (locked.trans enough) locked]
        exact (max_eq_right (by omega)).symm
    | collateralWithdrawn other held taken =>
        rw [event] at moves nonneg
        obtain ⟨rfl, rfl⟩ := Prod.mk.inj moves
        have positive : 0 ≤ taken.toInt := by
          have sum := nonneg.2
          rwa [Event.withdrawal, if_pos rfl] at sum
        have rest : 0 ≤ (max (b.amount - taken) 0).toInt := by
          rw [I128.toInt_max]
          exact le_max_right _ _
        refine Sound.of_get (step_withdrawal item event found) rest locked ?_
        rw [I128.toInt_max, I128.toInt_sub_of_nonneg rest locked]
        exact max_comm _ _
    | _ =>
        rw [event] at moves
        exact moves.elim
  · have same : (item.step db).balances.get user token = db.balances.get user token := by
      rw [item.step_balances, onBalances_frame moves]
    exact Sound.of_get (same.trans found) amount locked available

/-- A deposit that leaves less than what is locked shows at once. -/
theorem Sound.not_clamped (sound : Sound user token db)
    (short : ¬ item.Restores user token db) : ¬ Clamped user token (item.step db) := by
  rintro ⟨c, now, clamped⟩
  obtain ⟨b, found, available⟩ := sound.clamped
  obtain ⟨_, locked⟩ := sound.amounts b found
  unfold Processed.Restores at short
  split at short
  · rename_i other held added event
    simp only [Classical.not_imp, not_forall] at short
    obtain ⟨same, b', again, less⟩ := short
    obtain ⟨rfl, rfl⟩ := Prod.mk.inj same
    obtain rfl := Option.some.inj (found.symm.trans again)
    rw [step_deposit item event found] at now
    obtain rfl := Option.some.inj now
    simp only at clamped
    have short : (b.amount + added).toInt < b.locked.toInt := Int.lt_of_not_ge less
    have zero : (b.amount + added - b.locked).toInt = 0 := by
      rw [clamped]
      exact max_eq_left (by omega)
    have equal : b.amount + added = b.locked :=
      sub_eq_zero.mp (I128.toInt_injective zero)
    rw [equal] at short
    exact lt_irrefl _ short
  · exact short trivial

end Step

/-- What is available stays what is not locked, and at least zero, exactly as long as every
deposit leaves no less than what is locked. -/
theorem available_clamped_iff (user token : Address) (db : PerfDb) (start : Balance)
    (held : db.balances.get user token = some start) (locked : 0 ≤ start.locked)
    (covered : start.locked ≤ start.amount)
    (available : start.available = start.amount - start.locked) (items : List Processed)
    (nonneg : ∀ item ∈ items, 0 ≤ item.indexed.event.deposit user token ∧
      0 ≤ item.indexed.event.withdrawal user token) :
    (∀ front, front <+: items → Clamped user token (front.foldl Processed.step db)) ↔
      ∀ front item, front ++ [item] <+: items →
        item.Restores user token (front.foldl Processed.step db) := by
  have positive : 0 ≤ start.locked.toInt := locked
  have enough : start.locked.toInt ≤ start.amount.toInt := covered
  refine foldl_good_iff (fun _ => Sound user token) (Clamped user token)
    (fun _ db (item : Processed) => item.Restores user token db) ?_
    (fun _ _ sound => sound.clamped) ?_ ?_
  · refine Sound.of_get held (positive.trans enough) positive ?_
    rw [available, I128.toInt_sub_of_nonneg (positive.trans enough) positive]
    exact (max_eq_right (by omega)).symm
  · exact fun front item db inside sound restores =>
      sound.step (nonneg item (inside.subset (by simp))) restores
  · exact fun front item db _ sound short => sound.not_clamped short

/-- A database with one balance: a hundred of a token, of which eighty are locked. -/
def lockedDb : PerfDb :=
  .ofStores { Stores.new with
    balances := BalanceCache.new.setRaw (Vector.replicate 20 1) (Vector.replicate 20 2) 100 80 20 }

theorem lockedDb_balance : lockedDb.balances.get (Vector.replicate 20 1) (Vector.replicate 20 2) =
    some ⟨Vector.replicate 20 1, Vector.replicate 20 2, 100, 80, 20⟩ :=
  (BalanceCache.get_setRaw _ _ _ _ _ _ _ _).trans (if_pos rfl)

def collateralEvent (event : Event) : IndexedEvent :=
  ⟨5, 1700000000, Vector.replicate 32 0, 0, 0, event⟩

def withdrawFifty : Processed :=
  .live (collateralEvent (.collateralWithdrawn (Vector.replicate 20 1) (Vector.replicate 20 2) 50))

def depositTen : Processed :=
  .live (collateralEvent (.collateralDeposited (Vector.replicate 20 1) (Vector.replicate 20 2) 10))

/-- A deposit before the withdrawal. -/
theorem available_clamped_iff_deposit :
    (∀ front, front <+: [depositTen, withdrawFifty] →
        Clamped (Vector.replicate 20 1) (Vector.replicate 20 2)
          (front.foldl Processed.step lockedDb)) ↔
      ∀ front item, front ++ [item] <+: [depositTen, withdrawFifty] →
        item.Restores (Vector.replicate 20 1) (Vector.replicate 20 2)
          (front.foldl Processed.step lockedDb) :=
  available_clamped_iff _ _ lockedDb _ lockedDb_balance (by decide) (by decide) (by decide) _
    (by simp [depositTen, withdrawFifty, collateralEvent, Processed.indexed, Event.deposit,
      Event.withdrawal]; decide)

/-- The deposit after it leaves twenty less than nothing available. -/
theorem deposit_below_locked :
    ¬ ∀ front, front <+: [withdrawFifty, depositTen] →
      Clamped (Vector.replicate 20 1) (Vector.replicate 20 2)
        (front.foldl Processed.step lockedDb) := by
  intro always
  obtain ⟨b, found, clamped⟩ := always _ (List.prefix_refl _)
  have first := step_withdrawal withdrawFifty rfl lockedDb_balance
  have second := step_deposit depositTen rfl first
  obtain rfl := Option.some.inj (second.symm.trans found)
  revert clamped
  decide

end Perfdb
