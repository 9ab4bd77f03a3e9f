import Mathlib
import Perfdb.Recovery

set_option autoImplicit false

namespace Perfdb

namespace Stores.SameAccounts

variable {left right third : Stores}

theorem refl (stores : Stores) : stores.SameAccounts stores := ⟨rfl, rfl⟩

theorem symm (same : left.SameAccounts right) : right.SameAccounts left :=
  ⟨same.balances.symm, same.traderStats.symm⟩

theorem trans (first : left.SameAccounts right) (second : right.SameAccounts third) :
    left.SameAccounts third :=
  ⟨first.balances.trans second.balances, first.traderStats.trans second.traderStats⟩

end Stores.SameAccounts

theorem onBalances_congr (indexed : IndexedEvent) {left right : BalanceCache}
    (same : left.balances = right.balances) :
    (indexed.onBalances left).balances = (indexed.onBalances right).balances := by
  obtain ⟨blockNumber, blockTimestamp, txHash, txIndex, logIndex, event⟩ := indexed
  cases event with
  | collateralDeposited | collateralWithdrawn =>
      simp only [IndexedEvent.onBalances, BalanceCache.get, BalanceCache.setRaw, BalanceCache.set,
        same]
  | _ => exact same

theorem TraderStatsStore.ext_stats {left right : TraderStatsStore}
    (same : left.stats = right.stats) : left = right := by
  cases left
  exact congrArg mk same

theorem Stores.SameAccounts.effects {indexed : IndexedEvent} {left right left' right' : Stores}
    (same : left.SameAccounts right) (one : indexed.Effects left left')
    (other : indexed.Effects right right') : left'.SameAccounts right' where
  balances := by
    rw [one.balances, other.balances]
    exact onBalances_congr indexed same.balances
  traderStats := by
    rw [one.traderStats, other.traderStats, TraderStatsStore.ext_stats same.traderStats]

section Replay

/-- The last prices that logged ticks leave. -/
def applyTicks (entries : List WalEntry) (table : MarketStateTable) : MarketStateTable :=
  entries.foldl (fun table entry =>
    match entry with
    | .priceTick timestampNs marketId price => table.setPrice marketId price timestampNs
    | _ => table) table

/-- Replay passes over the entry, or it is a tick. -/
def WalEntry.Skipped (snapBlock : UInt64) : WalEntry → Prop
  | .indexedEvent indexed => indexed.blockNumber ≤ snapBlock
  | .priceTick _ _ _ => True
  | _ => False

/-- Replay of ticks and of events of the snapshot sets prices and nothing else. -/
theorem replayEntries_skipped {snapBlock : UInt64} {entries : List WalEntry}
    (skipped : ∀ entry ∈ entries, entry.Skipped snapBlock) (stores : Stores) :
    replayEntries snapBlock entries stores =
      { stores with marketState := applyTicks entries stores.marketState } := by
  induction entries generalizing stores with
  | nil => rfl
  | cons entry entries ih =>
      have rest := ih fun other member => skipped other (List.mem_cons_of_mem entry member)
      have first := skipped entry List.mem_cons_self
      cases entry with
      | indexedEvent indexed =>
          have same : replayWalEntry snapBlock (.indexedEvent indexed) stores = stores :=
            if_pos first
          exact (congrArg (replayEntries snapBlock entries) same).trans (rest stores)
      | priceTick timestampNs marketId price => exact rest _
      | _ => exact first.elim

variable {front : List Action} {c : Course}

/-- Every entry of a history is passed over by a snapshot of now. -/
theorem Course.Dated.skipped (dated : Course.Dated front c) (entry : WalEntry)
    (member : entry ∈ c.log) : entry.Skipped c.db.checkpoint.lastBlock := by
  rw [dated.log] at member
  obtain ⟨action, inside, logged⟩ := List.mem_filterMap.mp member
  cases action with
  | event indexed =>
      obtain rfl := Option.some.inj logged
      exact dated.top _ (List.mem_filterMap.mpr ⟨_, inside, rfl⟩)
  | tick sample =>
      obtain rfl := Option.some.inj logged
      trivial
  | snapshot order => contradiction

theorem reopened_event (c : Course) (indexed : IndexedEvent) :
    (c.step (.event indexed)).reopened =
      replayWalEntry (snapBlockOf c.latest) (.indexedEvent indexed) c.reopened := by
  rw [Course.reopened, Course.log, Course.step, ← List.append_assoc, recovered,
    replayEntries_append]
  rfl

theorem reopened_tick (c : Course) (sample : PriceTick) :
    (c.step (.tick sample)).reopened =
      replayWalEntry (snapBlockOf c.latest)
        (.priceTick sample.timestampNs sample.marketId sample.price) c.reopened := by
  rw [Course.reopened, Course.log, Course.step, ← List.append_assoc, recovered,
    replayEntries_append]
  rfl

/-- Right after a snapshot the log adds prices only. -/
theorem reopened_snapshot (dated : Course.Dated front c) (order : Iteration) :
    (c.step (.snapshot order)).reopened =
      { restoreSnapshot (c.db.stateSnapshot order) .new with
        marketState := applyTicks c.log
          (restoreSnapshot (c.db.stateSnapshot order) .new).marketState } := by
  rw [Course.reopened, Course.log, Course.step, List.append_nil]
  exact replayEntries_skipped dated.skipped _

end Replay

section Trace

variable {stores : Stores}

/-- The event leaves every balance and every trader's stats as they are. -/
def Event.Traceless (stores : Stores) : Event → Prop
  | .positionOpened _ _ _ _ _ _ _ _ _ | .positionClosed _ _ _ _ _ _ _
  | .liquidation _ _ _ _ _ _ => False
  | .collateralDeposited user token amount => ∃ b, stores.balances.get user token = some b ∧
      amount = 0 ∧ b.available = b.amount - b.locked
  | .collateralWithdrawn user token amount => ∃ b, stores.balances.get user token = some b ∧
      max (b.amount - amount) 0 = b.amount ∧ b.available = max (b.amount - b.locked) 0
  | _ => True

theorem succ_ne_self (n : UInt32) : n + 1 ≠ n := by
  intro same
  simp at same

theorem statsChange_moves {indexed : IndexedEvent} {user : Address}
    {change : TraderStats → TraderStats} (touches : indexed.statsChange = some (user, change))
    (s : TraderStats) : change s ≠ s := by
  obtain ⟨blockNumber, blockTimestamp, txHash, txIndex, logIndex, event⟩ := indexed
  cases event with
  | positionOpened =>
      obtain ⟨rfl, rfl⟩ := Prod.mk.inj (Option.some.inj touches)
      exact fun same => succ_ne_self _ (congrArg TraderStats.totalPositions same)
  | positionClosed positionId owner marketId size price pnl isFullClose =>
      obtain ⟨rfl, rfl⟩ := Prod.mk.inj (Option.some.inj touches)
      intro same
      have trades := congrArg TraderStats.totalTrades same
      cases isFullClose <;> exact succ_ne_self _ trades
  | liquidation =>
      obtain ⟨rfl, rfl⟩ := Prod.mk.inj (Option.some.inj touches)
      exact fun same => succ_ne_self _ (congrArg TraderStats.totalTrades same)
  | _ => contradiction

theorem onTraderStats_eq_self_iff (indexed : IndexedEvent) (store : TraderStatsStore) :
    (indexed.onTraderStats store).stats = store.stats ↔ indexed.statsChange = none := by
  rw [onTraderStats_eq]
  cases touches : indexed.statsChange with
  | none => simp
  | some entry =>
      obtain ⟨user, change⟩ := entry
      simp only [reduceCtorEq, iff_false]
      intro same
      have here := TraderStatsStore.get_ensure_update store user user change
      rw [TraderStatsStore.ext_stats same, if_pos rfl] at here
      have fixed : (store.get user).getD (TraderStats.zero user) =
          change ((store.get user).getD (TraderStats.zero user)) :=
        congrArg (fun found => found.getD (TraderStats.zero user)) here
      exact statsChange_moves touches _ fixed.symm

/-- An event leaves the accounts of keyed stores exactly when it is traceless. -/
theorem traceless_iff (keyed : stores.Keyed) (indexed : IndexedEvent) :
    ((indexed.onBalances stores.balances).balances = stores.balances.balances ∧
      (indexed.onTraderStats stores.traderStats).stats = stores.traderStats.stats) ↔
      indexed.event.Traceless stores := by
  rw [onTraderStats_eq_self_iff]
  obtain ⟨blockNumber, blockTimestamp, txHash, txIndex, logIndex, event⟩ := indexed
  have own (user token : Address) (b : Balance) (found : stores.balances.get user token = some b) :
      b.userAddress = user ∧ b.token = token := by
    have pair := keyed.balances _ b found
    exact Prod.mk.inj pair
  cases event with
  | positionOpened | positionClosed | liquidation =>
      simp [IndexedEvent.statsChange, Event.Traceless]
  | collateralDeposited user token amount =>
      simp only [IndexedEvent.onBalances, IndexedEvent.statsChange, and_true, Event.Traceless,
        BalanceCache.setRaw, BalanceCache.set, Table.insert_eq_self_iff]
      change stores.balances.get user token = _ ↔ _
      cases found : stores.balances.get user token with
      | none => simp
      | some b =>
          obtain ⟨rfl, rfl⟩ := own user token b found
          obtain ⟨user, token, held, locked, available⟩ := b
          simp only [Option.map_some, Option.getD_some, Option.some.injEq, Balance.mk.injEq,
            true_and, exists_eq_left']
          constructor
          · rintro ⟨same, rest⟩
            have none : amount = 0 := (I128.add_eq_self_iff held amount).mp same.symm
            subst none
            rw [add_zero] at rest
            exact ⟨rfl, rest⟩
          · rintro ⟨rfl, rest⟩
            rw [add_zero]
            exact ⟨rfl, rest⟩
  | collateralWithdrawn user token amount =>
      simp only [IndexedEvent.onBalances, IndexedEvent.statsChange, and_true, Event.Traceless,
        BalanceCache.setRaw, BalanceCache.set, Table.insert_eq_self_iff]
      change stores.balances.get user token = _ ↔ _
      cases found : stores.balances.get user token with
      | none => simp
      | some b =>
          obtain ⟨rfl, rfl⟩ := own user token b found
          obtain ⟨user, token, held, locked, available⟩ := b
          simp only [Option.map_some, Option.getD_some, Option.some.injEq, Balance.mk.injEq,
            true_and, exists_eq_left']
          constructor
          · rintro ⟨same, rest⟩
            rw [← same] at rest
            exact ⟨same.symm, rest⟩
          · rintro ⟨same, rest⟩
            rw [same]
            exact ⟨rfl, rest⟩
  | _ => simp [IndexedEvent.onBalances, IndexedEvent.statsChange, Event.Traceless]

end Trace

/-- The event is of a later block than the last snapshot, block 0 standing for none, or it
is traceless. -/
def Action.Survives (c : Course) : Action → Prop
  | .event indexed =>
      snapBlockOf c.latest < indexed.blockNumber ∨ indexed.event.Traceless c.db.toStores
  | .tick _ | .snapshot _ => True

/-- Whoever opens the database again finds its balances and trader stats. -/
def Running.AccountsRecover (fmts : Formats) (r : Running) : Prop :=
  ∀ order config, ∃ db later, PerfDb.open_ fmts order config r.close = .ok db later ∧
    (∀ user token, db.balances.get user token = r.db.balances.get user token) ∧
    ∀ address, db.traderStats.get address = r.db.traderStats.get address

section Step

variable {front : List Action} {action : Action} {c : Course}

/-- An action that survives keeps what would be reopened equal to what is live. -/
theorem Course.Dated.survives (dated : c.Dated front)
    (same : c.reopened.SameAccounts c.db.toStores) (survives : action.Survives c) :
    (c.step action).reopened.SameAccounts (c.step action).db.toStores := by
  cases action with
  | event indexed =>
      rw [reopened_event]
      have live := applyEvent_effects indexed c.db
      by_cases later : snapBlockOf c.latest < indexed.blockNumber
      · rw [replayWalEntry_event later]
        exact same.effects (replayEvent_effects indexed c.reopened) live
      · obtain ⟨balances, stats⟩ :=
          (traceless_iff dated.keyed indexed).mpr (survives.resolve_left later)
        have skip : replayWalEntry (snapBlockOf c.latest) (.indexedEvent indexed) c.reopened =
            c.reopened := if_pos (UInt64.not_lt.mp later)
        rw [skip]
        refine same.trans ⟨?_, ?_⟩
        · exact ((congrArg BalanceCache.balances live.balances).trans balances).symm
        · exact ((congrArg TraderStatsStore.stats live.traderStats).trans stats).symm
  | tick sample =>
      rw [reopened_tick]
      exact ⟨same.balances, same.traderStats⟩
  | snapshot order =>
      have saved := restore_accounts order dated.keyed
      rw [reopened_snapshot dated]
      generalize restoreSnapshot (c.db.stateSnapshot order) .new = base at saved ⊢
      exact ⟨saved.balances, saved.traderStats⟩

/-- An event that does not survive is missing from what is reopened. -/
theorem Course.Dated.lost (dated : c.Dated front)
    (same : c.reopened.SameAccounts c.db.toStores) (fails : ¬ action.Survives c) :
    ¬ (c.step action).reopened.SameAccounts (c.step action).db.toStores := by
  cases action with
  | event indexed =>
      obtain ⟨early, traces⟩ := not_or.mp fails
      intro after
      have live := applyEvent_effects indexed c.db
      have skip : replayWalEntry (snapBlockOf c.latest) (.indexedEvent indexed) c.reopened =
          c.reopened := if_pos (UInt64.not_lt.mp early)
      rw [reopened_event, skip] at after
      have still := after.symm.trans same
      refine traces ((traceless_iff dated.keyed indexed).mp ⟨?_, ?_⟩)
      · exact (congrArg BalanceCache.balances live.balances).symm.trans still.balances
      · exact (congrArg TraderStatsStore.stats live.traderStats).symm.trans still.traderStats
  | tick | snapshot => exact (fails trivial).elim

theorem accountsRecover_iff {fmts : Formats} {r : Running} (follows : Follows fmts c r)
    (inverse : fmts.snapshot.RoundTrips) :
    r.AccountsRecover fmts ↔ c.reopened.SameAccounts c.db.toStores := by
  have live := follows.stores
  constructor
  · intro recover
    obtain ⟨db, later, opened, balances, stats⟩ := recover .stored ⟨"", "", 0, .none⟩
    obtain ⟨db', later', again, stores⟩ := follows.reopen inverse .stored ⟨"", "", 0, .none⟩
    obtain ⟨rfl, rfl⟩ := EStateM.Result.ok.inj (opened.symm.trans again)
    rw [← stores, ← live]
    exact ⟨Std.ExtTreeMap.ext_getElem? fun key => balances key.1 key.2,
      Std.ExtTreeMap.ext_getElem? stats⟩
  · intro same order config
    obtain ⟨db, later, opened, stores⟩ := follows.reopen inverse order config
    rw [← stores, ← live] at same
    refine ⟨db, later, opened, fun user token => ?_, fun address => ?_⟩
    · rw [BalanceCache.get, same.balances, BalanceCache.get]
    · rw [TraderStatsStore.get, same.traderStats, TraderStatsStore.get]

end Step

theorem accounts_start {db : PerfDb} (empty : db.toStores = .new) :
    (Course.start db).reopened.SameAccounts (Course.start db).db.toStores := by
  change Stores.new.SameAccounts db.toStores
  rw [empty]
  exact Stores.SameAccounts.refl _

/-- After every part of a run on a new database balances and trader stats recover exactly
when every event of it survives. -/
theorem accounts_recover_iff (fmts : Formats) (walInverse : fmts.wal.RoundTrips)
    (inverse : fmts.snapshot.RoundTrips) (actions : List Action)
    (valid : ∀ action ∈ actions, action.Valid fmts.wal) (ordered : Ordered actions)
    (order : Iteration) (config : PerfDbConfig) (disk opened : Disk) (blank : disk.Blank)
    (db : PerfDb) (run : PerfDb.open_ fmts order config disk = .ok db opened) :
    (∀ front r, front <+: actions → runActions fmts front (opened.running db) = .ok () r →
      r.AccountsRecover fmts) ↔
    ∀ front action, front ++ [action] <+: actions → action.Survives (course db front) := by
  obtain ⟨db', opened', again, empty, follows⟩ := follows_blank fmts order config blank
  obtain ⟨rfl, rfl⟩ := EStateM.Result.ok.inj (again.symm.trans run)
  have steps := foldl_good_iff
    (fun front c => Course.Dated front c ∧ c.reopened.SameAccounts c.db.toStores)
    (fun c => c.reopened.SameAccounts c.db.toStores)
    (fun _ c (action : Action) => action.Survives c)
    ⟨dated_start empty, accounts_start empty⟩ (fun _ _ inv => inv.2)
    (fun _ _ _ inside inv survives =>
      ⟨inv.1.step (ordered.of_prefix inside), inv.1.survives inv.2 survives⟩)
    (fun _ _ _ _ inv fails => inv.1.lost inv.2 fails)
  refine Iff.trans ?_ steps
  refine forall_congr' fun front => ?_
  constructor
  · intro recover inside
    obtain ⟨r, returned, reached⟩ :=
      ordered_follows walInverse valid ordered empty follows inside
    exact (accountsRecover_iff reached inverse).mp (recover r inside returned)
  · intro same r inside returned
    obtain ⟨r', returned', reached⟩ :=
      ordered_follows walInverse valid ordered empty follows inside
    obtain ⟨_, rfl⟩ := EStateM.Result.ok.inj (returned'.symm.trans returned)
    exact (accountsRecover_iff reached inverse).mpr (same inside)

def genesisDeposit : IndexedEvent :=
  ⟨0, 1700000000, Vector.replicate 32 0, 0, 0,
    .collateralDeposited (Vector.replicate 20 1) (Vector.replicate 20 2) 100⟩

theorem genesisDeposit_valid : ∀ action ∈ [Action.event genesisDeposit],
    action.Valid Bincode.format := by
  intro action member
  obtain rfl := List.mem_singleton.mp member
  refine ⟨fun sample same => by contradiction, fun entry logged => ?_⟩
  obtain rfl := Option.some.inj logged
  unfold Wal.Format.Fits
  decide +kernel

theorem genesisDeposit_ordered : Ordered [Action.event genesisDeposit] :=
  List.pairwise_singleton _ _

theorem accounts_recover_iff_genesis :
    ∃ db opened, PerfDb.open_ Bincode.formats .stored ⟨"data", "wal", 1024, .none⟩ .fresh =
        .ok db opened ∧
      ((∀ front r, front <+: [Action.event genesisDeposit] →
        runActions Bincode.formats front (opened.running db) = .ok () r →
        r.AccountsRecover Bincode.formats) ↔
      ∀ front action, front ++ [action] <+: [Action.event genesisDeposit] →
        action.Survives (course db front)) := by
  obtain ⟨db, opened, run, _⟩ := follows_blank Bincode.formats .stored
    ⟨"data", "wal", 1024, .none⟩ Disk.fresh_blank
  exact ⟨db, opened, run, accounts_recover_iff Bincode.formats Bincode.format_roundTrips
    Bincode.snapshotFormat_roundTrips _ genesisDeposit_valid genesisDeposit_ordered .stored
    ⟨"data", "wal", 1024, .none⟩ .fresh opened Disk.fresh_blank db run⟩

/-- The deposit is in the log, but replay takes it to be in a snapshot there is not. -/
theorem genesis_deposit_lost :
    ∃ db opened r, PerfDb.open_ Bincode.formats .stored ⟨"data", "wal", 1024, .none⟩ .fresh =
        .ok db opened ∧
      runActions Bincode.formats [.event genesisDeposit] (opened.running db) = .ok () r ∧
      ¬ r.AccountsRecover Bincode.formats := by
  obtain ⟨db, opened, run, empty, follows⟩ := follows_blank Bincode.formats .stored
    ⟨"data", "wal", 1024, .none⟩ Disk.fresh_blank
  obtain ⟨r, returned, reached⟩ := ordered_follows Bincode.format_roundTrips genesisDeposit_valid
    genesisDeposit_ordered empty follows (List.prefix_refl _)
  have fails : ¬ (Action.event genesisDeposit).Survives (Course.start db) := by
    rintro (later | ⟨_, _, none, _⟩)
    · exact absurd later (by decide : ¬ (0 : UInt64) < 0)
    · exact absurd none (by decide)
  have lost := (dated_start empty).lost (accounts_start empty) fails
  exact ⟨db, opened, r, run, returned, fun recover =>
    lost ((accountsRecover_iff reached Bincode.snapshotFormat_roundTrips).mp recover)⟩

end Perfdb
