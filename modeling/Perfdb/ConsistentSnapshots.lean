import Mathlib
import Perfdb.ConcurrentSnapshots
import Perfdb.EventChanges

set_option autoImplicit false

namespace Perfdb

namespace Threads

variable {events : List IndexedEvent} {schedule : List Step}

section Cuts

/-- What was processed before a read is a front of what was processed of the logged
events. -/
theorem before_cut (interleaves : Interleaves events schedule) (read : Read) :
    (before read schedule).filter Step.processes <+:
      (logged schedule).flatMap processSteps := by
  obtain ⟨_, within⟩ := processSteps_starts.begun interleaves.events
  change _ <+: (logged (schedule.filter Step.processes)).flatMap processSteps at within
  rw [logged_filter] at within
  exact ((List.takeWhile_prefix _).filter _).trans within

theorem logged_front (interleaves : Interleaves events schedule) :
    logged schedule <+: events := by
  rw [← logged_filter]
  exact (processSteps_starts.begun interleaves.events).1

/-- The checkpoint is at the event it was last advanced to. -/
theorem lastBlock_after (steps : List Step) (start : Stores) :
    (storesAfter steps start).checkpoint.lastBlock =
      ((steps.filterMap Step.advances).getLast?.map IndexedEvent.blockNumber).getD
        start.checkpoint.lastBlock := by
  induction steps generalizing start with
  | nil => rfl
  | cons step steps ih =>
      change (storesAfter steps (step.update start)).checkpoint.lastBlock = _
      rw [ih, List.filterMap_cons]
      have kept (none : step.advances = none) :
          (step.update start).checkpoint = start.checkpoint := by
        cases step with
        | call indexed made =>
            cases made with
            | advanceBlock => cases none
            | closeOi positionId marketId closed =>
                simp only [Step.update, Call.update]
                split <;> rfl
            | _ => rfl
        | _ => rfl
      cases advanced : step.advances with
      | none => rw [kept advanced]
      | some indexed =>
          have moved : (step.update start).checkpoint.lastBlock = indexed.blockNumber := by
            cases step with
            | call other made =>
                cases made <;> cases advanced
                rfl
            | _ => cases advanced
          simp only [List.getLast?_cons, moved]
          cases (steps.filterMap Step.advances).getLast? <;> rfl

/-- In a list of ascending blocks those of a front are the blocks up to its last. -/
theorem mem_front_iff {front whole : List IndexedEvent} (inside : front <+: whole)
    (ascending : whole.Pairwise fun one other => one.blockNumber < other.blockNumber)
    {indexed : IndexedEvent} (member : indexed ∈ whole) :
    (indexed ∈ front ∨ indexed.blockNumber = 0) ↔
      indexed.blockNumber ≤ (front.getLast?.map IndexedEvent.blockNumber).getD 0 := by
  obtain ⟨rest, rfl⟩ := inside
  rcases List.eq_nil_or_concat front with rfl | ⟨early, last, rfl⟩
  · simp
  · rw [List.concat_eq_append] at ascending member ⊢
    rw [List.getLast?_concat]
    change _ ↔ indexed.blockNumber ≤ last.blockNumber
    obtain ⟨within, _, later⟩ := List.pairwise_append.mp ascending
    constructor
    · rintro (inside | zero)
      · rcases List.mem_append.mp inside with earlier | is
        · exact UInt64.le_of_lt ((List.pairwise_append.mp within).2.2 indexed earlier last
            (List.mem_singleton_self _))
        · rw [List.mem_singleton.mp is]
          exact UInt64.le_refl _
      · rw [zero]
        exact UInt64.zero_le
    · intro below
      rcases List.mem_append.mp member with inside | after
      · exact Or.inl inside
      · have above := later last (List.mem_append_right _ (List.mem_singleton_self _)) indexed after
        exact (UInt64.not_lt.mpr below above).elim

theorem covered_iff (interleaves : Interleaves events schedule)
    (ascending : events.Pairwise fun one other => one.blockNumber < other.blockNumber)
    {start : Stores} (fresh : start.checkpoint.lastBlock = 0) {indexed : IndexedEvent}
    (member : indexed ∈ logged schedule) :
    Covered schedule indexed ↔ indexed.blockNumber ≤
      (storesAfter (before .checkpoint schedule) start).checkpoint.lastBlock := by
  have cut := (before_cut interleaves .checkpoint).filterMap Step.advances
  rw [Cut.filterMap_all processSteps_advances] at cut
  rw [← storesAfter_filter, lastBlock_after, fresh, ← mem_front_iff cut
    (ascending.sublist (logged_front interleaves).sublist) member, Covered]
  refine or_congr_left ?_
  rw [List.mem_filterMap]
  constructor
  · intro advanced
    exact ⟨_, List.mem_filter.mpr ⟨advanced, rfl⟩, rfl⟩
  · rintro ⟨step, inside, advances⟩
    obtain ⟨inside, _⟩ := List.mem_filter.mp inside
    cases step with
    | call other made =>
        cases made <;> cases advances
        exact inside
    | _ => cases advances

end Cuts

section Stores

def Step.onBalances : Step → BalanceCache → BalanceCache
  | .call _ made, cache => made.onBalances cache
  | _, cache => cache

def Step.onTraderStats : Step → TraderStatsStore → TraderStatsStore
  | .call indexed made, store => made.onTraderStats indexed store
  | _, store => store

def Step.touches (read : Read) : Step → Bool
  | .call _ made => made.touches read
  | _ => false

def Step.counts (read : Read) : Step → Bool
  | .call _ made => made.counts read
  | _ => false

theorem balances_after (steps : List Step) (start : Stores) :
    (storesAfter steps start).balances =
      steps.foldl (fun cache step => step.onBalances cache) start.balances := by
  refine (List.foldl_hom Stores.balances fun stores step => ?_).symm
  cases step with
  | call indexed made =>
      cases made with
      | closeOi positionId marketId closed =>
          simp only [Step.update, Call.update]
          split <;> rfl
      | _ => rfl
  | _ => rfl

theorem traderStats_after (steps : List Step) (start : Stores) :
    (storesAfter steps start).traderStats =
      steps.foldl (fun store step => step.onTraderStats store) start.traderStats := by
  refine (List.foldl_hom Stores.traderStats fun stores step => ?_).symm
  cases step with
  | call indexed made =>
      cases made with
      | closeOi positionId marketId closed =>
          simp only [Step.update, Call.update]
          split <;> rfl
      | _ => rfl
  | _ => rfl

theorem onBalances_untouched {step : Step} (untouched : step.touches .balances = false)
    (cache : BalanceCache) : step.onBalances cache = cache := by
  cases step with
  | call indexed made => cases made <;> first | rfl | cases untouched
  | _ => rfl

theorem onTraderStats_untouched {step : Step} (untouched : step.touches .traderStats = false)
    (store : TraderStatsStore) : step.onTraderStats store = store := by
  cases step with
  | call indexed made => cases made <;> first | rfl | cases untouched
  | _ => rfl

/-- Only the steps that touch a store matter to it. -/
theorem foldl_touching {σ : Type} (act : Step → σ → σ) (touches : Step → Bool)
    (untouched : ∀ step, touches step = false → ∀ s, act step s = s) (steps : List Step) (s : σ) :
    (steps.filter touches).foldl (fun s step => act step s) s =
      steps.foldl (fun s step => act step s) s := by
  rw [List.foldl_filter]
  congr 1
  funext s step
  cases touched : touches step with
  | true => rfl
  | false => exact (untouched step touched s).symm

theorem processSteps_onBalances (indexed : IndexedEvent) (cache : BalanceCache) :
    (processSteps indexed).foldl (fun cache step => step.onBalances cache) cache =
      indexed.onBalances cache := by
  obtain ⟨blockNumber, blockTimestamp, txHash, txIndex, logIndex, event⟩ := indexed
  cases event with
  | positionClosed positionId user marketId closedSizeUsd exitPrice realizedPnl isFullClose =>
      cases isFullClose <;> rfl
  | _ => rfl

theorem processSteps_onTraderStats (indexed : IndexedEvent) (store : TraderStatsStore) :
    (processSteps indexed).foldl (fun store step => step.onTraderStats store) store =
      indexed.onTraderStats store := by
  obtain ⟨blockNumber, blockTimestamp, txHash, txIndex, logIndex, event⟩ := indexed
  cases event with
  | positionClosed positionId user marketId closedSizeUsd exitPrice realizedPnl isFullClose =>
      cases isFullClose <;> rfl
  | _ => rfl

theorem foldl_process {σ : Type} (act : Step → σ → σ) (whole : IndexedEvent → σ → σ)
    (process : ∀ indexed s, (processSteps indexed).foldl (fun s step => act step s) s =
      whole indexed s) (events : List IndexedEvent) (s : σ) :
    (events.flatMap processSteps).foldl (fun s step => act step s) s =
      events.foldl (fun s indexed => whole indexed s) s := by
  rw [List.foldl_flatMap]
  congr 1
  funext s indexed
  exact process indexed s

/-- An event touches the balances in one call, if at all. -/
theorem phases_balances (indexed : IndexedEvent) : ∃ opening closing,
    Cut.Phases (Step.touches .balances) (Step.counts .balances) (processSteps indexed) opening
      closing := by
  obtain ⟨blockNumber, blockTimestamp, txHash, txIndex, logIndex, event⟩ := indexed
  have one (made : Call) (counts : made.counts .balances = true) (indexed : IndexedEvent)
      (only : (processSteps indexed).filter (Step.touches .balances) = [.call indexed made]) :
      ∃ opening closing, Cut.Phases (Step.touches .balances) (Step.counts .balances)
        (processSteps indexed) opening closing := by
    refine ⟨[], [.call indexed made], only, by simp, fun step member => ?_, fun _ => rfl,
      List.nodup_singleton _⟩
    obtain rfl := List.mem_singleton.mp member
    exact counts
  cases event with
  | collateralDeposited user token amount => exact one (.deposit user token amount) rfl _ rfl
  | collateralWithdrawn user token amount => exact one (.withdraw user token amount) rfl _ rfl
  | positionClosed positionId user marketId closedSizeUsd exitPrice realizedPnl isFullClose =>
      cases isFullClose <;> exact ⟨[], [], rfl, by simp, by simp, fun _ => rfl, List.nodup_nil⟩
  | _ => exact ⟨[], [], rfl, by simp, by simp, fun _ => rfl, List.nodup_nil⟩

theorem phases_traderStats (indexed : IndexedEvent) : ∃ opening closing,
    Cut.Phases (Step.touches .traderStats) (Step.counts .traderStats) (processSteps indexed)
      opening closing := by
  obtain ⟨blockNumber, blockTimestamp, txHash, txIndex, logIndex, event⟩ := indexed
  have counted (user : Address) (made : List Call) (indexed : IndexedEvent)
      (counts : ∀ call ∈ made, call.counts .traderStats = true) (once : made.Nodup)
      (any : made ≠ [])
      (split : (processSteps indexed).filter (Step.touches .traderStats) =
        [.call indexed (.traderStatsEnsure user)] ++ made.map (Step.call indexed)) :
      ∃ opening closing, Cut.Phases (Step.touches .traderStats) (Step.counts .traderStats)
        (processSteps indexed) opening closing := by
    refine ⟨_, _, split, fun step member => ?_, fun step member => ?_, fun none => ?_, ?_⟩
    · obtain rfl := List.mem_singleton.mp member
      rfl
    · obtain ⟨call, inside, rfl⟩ := List.mem_map.mp member
      exact counts call inside
    · exact (any (List.map_eq_nil_iff.mp none)).elim
    · exact once.map fun one other same => (Step.call.inj same).2
  cases event with
  | positionOpened positionId user =>
      exact counted user [.incrementOpenPositions user] _ (by simp [Call.counts]) (by simp)
        (by simp) rfl
  | positionClosed positionId user marketId closedSizeUsd exitPrice realizedPnl isFullClose =>
      cases isFullClose
      · exact counted user [.incrementTrade user closedSizeUsd realizedPnl 0
          (decide (0 < realizedPnl)) false] _ (by simp [Call.counts]) (by simp) (by simp) rfl
      · exact counted user [.incrementTrade user closedSizeUsd realizedPnl 0
          (decide (0 < realizedPnl)) false, .decrementOpenPositions user] _
          (by simp [Call.counts]) (by simp) (by simp) rfl
  | liquidation positionId user marketId liquidationPrice penalty =>
      exact counted user [.incrementTrade user 0 (-penalty) 0 false true,
        .decrementOpenPositions user] _ (by simp [Call.counts]) (by simp) (by simp) rfl
  | _ => exact ⟨[], [], rfl, by simp, by simp, fun _ => rfl, List.nodup_nil⟩

end Stores

section Accounts

variable {start : Stores}

def readBlock (schedule : List Step) (start : Stores) : UInt64 :=
  (storesAfter (before .checkpoint schedule) start).checkpoint.lastBlock

/-- The events of the log that replay takes to be in the snapshot. -/
def covered (schedule : List Step) (start : Stores) : List IndexedEvent :=
  (logged schedule).filter fun indexed => decide (indexed.blockNumber ≤ readBlock schedule start)

/-- The events of the log that replay does again. -/
def replayed (schedule : List Step) (start : Stores) : List IndexedEvent :=
  (logged schedule).filter fun indexed => !decide (indexed.blockNumber ≤ readBlock schedule start)

theorem ascending_nodup {events : List IndexedEvent}
    (ascending : events.Pairwise fun one other => one.blockNumber < other.blockNumber) :
    events.Nodup := by
  refine ascending.imp fun {one other} less same => ?_
  rw [same] at less
  exact UInt64.lt_irrefl _ less

/-- Of ascending blocks those up to one come first. -/
theorem covered_replayed (ascending : (logged schedule).Pairwise fun one other =>
    one.blockNumber < other.blockNumber) :
    covered schedule start ++ replayed schedule start = logged schedule := by
  rw [covered, replayed]
  generalize readBlock schedule start = block
  generalize logged schedule = events at ascending ⊢
  induction events with
  | nil => rfl
  | cons indexed events ih =>
      obtain ⟨later, ascending⟩ := List.pairwise_cons.mp ascending
      by_cases within : indexed.blockNumber ≤ block
      · simp [within, ih ascending]
      · have beyond (other : IndexedEvent) (member : other ∈ events) :
            ¬ other.blockNumber ≤ block := fun below =>
          within (UInt64.le_trans (UInt64.le_of_lt (later other member)) below)
        have none : events.filter (fun other => decide (other.blockNumber ≤ block)) = [] := by
          simpa using beyond
        have all : events.filter (fun other => !decide (other.blockNumber ≤ block)) = events := by
          simpa using beyond
        simp [within, none, all]

/-- No event is torn, so each counts in what is read exactly if it is covered. -/
theorem Untorn.made (untorn : Untorn schedule) (interleaves : Interleaves events schedule)
    (ascending : events.Pairwise fun one other => one.blockNumber < other.blockNumber)
    (fresh : start.checkpoint.lastBlock = 0) (read : Read) (indexed : IndexedEvent)
    (member : indexed ∈ logged schedule) (step : Step) (mine : step ∈ processSteps indexed)
    (counts : step.counts read = true) :
    step ∈ (before read schedule).filter Step.processes ↔
      decide (indexed.blockNumber ≤ readBlock schedule start) = true := by
  rcases List.mem_cons.mp mine with rfl | mine
  · cases counts
  · obtain ⟨call, inside, rfl⟩ := List.mem_map.mp mine
    rw [decide_eq_true_eq, readBlock, ← covered_iff interleaves ascending fresh member,
      ← untorn indexed member call inside read counts, List.mem_filter]
    exact and_iff_left rfl

section Read

variable (interleaves : Interleaves events schedule) (untorn : Untorn schedule)
  (ascending : events.Pairwise fun one other => one.blockNumber < other.blockNumber)
  (fresh : start.checkpoint.lastBlock = 0)

include interleaves untorn ascending fresh

theorem read_balances : (storesAfter (before .balances schedule) start).balances =
    (covered schedule start).foldl (fun cache indexed => indexed.onBalances cache)
      start.balances := by
  obtain ⟨extra, filtered, still⟩ := Cut.filter_done processSteps_own phases_balances
    (fun indexed => decide (indexed.blockNumber ≤ readBlock schedule start))
    (ascending_nodup (ascending.sublist (logged_front interleaves).sublist))
    (before_cut interleaves .balances) fun indexed member step mine _ counts =>
      untorn.made interleaves ascending fresh .balances indexed member step mine counts
  have idle (cache : BalanceCache) :
      extra.foldl (fun cache step => step.onBalances cache) cache = cache := by
    clear filtered
    induction extra generalizing cache with
    | nil => rfl
    | cons step extra ih =>
        have none : step.onBalances cache = cache := by
          have counts := (still step List.mem_cons_self).1
          cases step with
          | call indexed made => cases made <;> first | rfl | cases counts
          | _ => rfl
        rw [List.foldl_cons, none]
        exact ih (fun other inside => still other (List.mem_cons_of_mem step inside)) cache
  rw [← storesAfter_filter, balances_after,
    ← foldl_touching Step.onBalances (Step.touches .balances)
      (fun step untouched => onBalances_untouched untouched), filtered, List.foldl_append, idle,
    foldl_touching Step.onBalances (Step.touches .balances)
      (fun step untouched => onBalances_untouched untouched)]
  exact foldl_process Step.onBalances IndexedEvent.onBalances processSteps_onBalances _ _

theorem read_traderStats : ∃ ensured : List Address,
    (storesAfter (before .traderStats schedule) start).traderStats =
      ensured.foldl TraderStatsStore.ensure
        ((covered schedule start).foldl (fun store indexed => indexed.onTraderStats store)
          start.traderStats) ∧
    ∀ user ∈ ensured, ∃ indexed ∈ replayed schedule start, ∃ change,
      indexed.statsChange = some (user, change) := by
  obtain ⟨extra, filtered, still⟩ := Cut.filter_done processSteps_own phases_traderStats
    (fun indexed => decide (indexed.blockNumber ≤ readBlock schedule start))
    (ascending_nodup (ascending.sublist (logged_front interleaves).sublist))
    (before_cut interleaves .traderStats) fun indexed member step mine _ counts =>
      untorn.made interleaves ascending fresh .traderStats indexed member step mine counts
  have ensures (step : Step) (inside : step ∈ extra) : ∃ user,
      (∀ store, step.onTraderStats store = store.ensure user) ∧
      ∃ indexed ∈ replayed schedule start, ∃ change,
        indexed.statsChange = some (user, change) := by
    obtain ⟨idle, indexed, member, beyond, mine⟩ := still step inside
    have touched : step ∈ ((before .traderStats schedule).filter Step.processes).filter
        (Step.touches .traderStats) := filtered ▸ List.mem_append_right _ inside
    obtain ⟨_, touches⟩ := List.mem_filter.mp touched
    have again : indexed ∈ replayed schedule start :=
      List.mem_filter.mpr ⟨member, by simpa using beyond⟩
    rcases List.mem_cons.mp mine with rfl | mine
    · cases touches
    · obtain ⟨call, listed, rfl⟩ := List.mem_map.mp mine
      cases call with
      | traderStatsEnsure user =>
          refine ⟨user, fun _ => rfl, indexed, again, ?_⟩
          obtain ⟨blockNumber, blockTimestamp, txHash, txIndex, logIndex, event⟩ := indexed
          cases event with
          | positionClosed positionId owner marketId closedSizeUsd exitPrice pnl isFullClose =>
              cases isFullClose <;> simp_all [calls, updates, IndexedEvent.statsChange]
          | _ => simp_all [calls, updates, IndexedEvent.statsChange]
      | incrementOpenPositions | decrementOpenPositions | incrementTrade => cases idle
      | _ => cases touches
  have users : ∃ ensured : List Address,
      (∀ store, extra.foldl (fun store step => step.onTraderStats store) store =
        ensured.foldl TraderStatsStore.ensure store) ∧
      ∀ user ∈ ensured, ∃ indexed ∈ replayed schedule start, ∃ change,
        indexed.statsChange = some (user, change) := by
    clear filtered still
    induction extra with
    | nil => exact ⟨[], fun _ => rfl, by simp⟩
    | cons step extra ih =>
        obtain ⟨user, acts, named⟩ := ensures step List.mem_cons_self
        obtain ⟨ensured, same, all⟩ :=
          ih fun other inside => ensures other (List.mem_cons_of_mem step inside)
        refine ⟨user :: ensured, fun store => ?_, fun other inside => ?_⟩
        · rw [List.foldl_cons, List.foldl_cons, acts, same]
        · rcases List.mem_cons.mp inside with rfl | inside
          · exact named
          · exact all other inside
  obtain ⟨ensured, same, named⟩ := users
  refine ⟨ensured, ?_, named⟩
  rw [← storesAfter_filter, traderStats_after,
    ← foldl_touching Step.onTraderStats (Step.touches .traderStats)
      (fun step untouched => onTraderStats_untouched untouched), filtered, List.foldl_append, same,
    foldl_touching Step.onTraderStats (Step.touches .traderStats)
      (fun step untouched => onTraderStats_untouched untouched)]
  congr 1
  exact foldl_process Step.onTraderStats IndexedEvent.onTraderStats processSteps_onTraderStats _ _

end Read

section Replay

/-- Ensuring a trader who is counted for anyway changes nothing. -/
theorem foldl_ensured {events : List IndexedEvent} {user : Address} (store : TraderStatsStore)
    (named : ∃ indexed ∈ events, ∃ change, indexed.statsChange = some (user, change)) :
    events.foldl (fun store indexed => indexed.onTraderStats store) (store.ensure user) =
      events.foldl (fun store indexed => indexed.onTraderStats store) store := by
  induction events generalizing store with
  | nil => simp at named
  | cons indexed events ih =>
      have ensure_change (store : TraderStatsStore) : (store.ensure user).stats =
          store.stats.change (some (user, fun known => some (known.getD (TraderStats.zero user)))) :=
        Table.insertIfNew_eq_change _ _ _
      rw [List.foldl_cons, List.foldl_cons]
      by_cases own : user ∈ indexed.traderChange.map Prod.fst
      · congr 1
        apply TraderStatsStore.ext_stats
        rw [IndexedEvent.onTraderStats_change, IndexedEvent.onTraderStats_change, ensure_change]
        rw [IndexedEvent.traderChange, Option.map_map] at own
        cases touches : indexed.statsChange with
        | none => simp [touches] at own
        | some entry =>
            obtain ⟨owner, change⟩ := entry
            obtain rfl : owner = user := by simpa [touches] using own
            rw [IndexedEvent.traderChange, touches, Option.map_some, Table.change_change]
            rfl
      · have later : ∃ other ∈ events, ∃ change, other.statsChange = some (user, change) := by
          obtain ⟨other, member, change, touches⟩ := named
          rcases List.mem_cons.mp member with rfl | member
          · exact (own (by simp [IndexedEvent.traderChange, touches])).elim
          · exact ⟨other, member, change, touches⟩
        rw [← ih (indexed.onTraderStats store) later]
        congr 1
        apply TraderStatsStore.ext_stats
        rw [IndexedEvent.onTraderStats_change, ensure_change, ensure_change,
          IndexedEvent.onTraderStats_change]
        refine Table.change_comm_of_ne _ fun key is => ?_
        obtain rfl : user = key := by simpa using is
        exact own

theorem foldl_all_ensured {events : List IndexedEvent} (ensured : List Address)
    (store : TraderStatsStore) (named : ∀ user ∈ ensured, ∃ indexed ∈ events, ∃ change,
      indexed.statsChange = some (user, change)) :
    events.foldl (fun store indexed => indexed.onTraderStats store)
        (ensured.foldl TraderStatsStore.ensure store) =
      events.foldl (fun store indexed => indexed.onTraderStats store) store := by
  induction ensured generalizing store with
  | nil => rfl
  | cons user ensured ih =>
      rw [List.foldl_cons, ih _ fun other inside => named other (List.mem_cons_of_mem user inside)]
      exact foldl_ensured store (named user List.mem_cons_self)

theorem replay_accounts (block : UInt64) (events : List IndexedEvent) (stores : Stores) :
    let again := events.filter fun indexed => !decide (indexed.blockNumber ≤ block)
    (replayEntries block (events.map .indexedEvent) stores).balances =
        again.foldl (fun cache indexed => indexed.onBalances cache) stores.balances ∧
      (replayEntries block (events.map .indexedEvent) stores).traderStats =
        again.foldl (fun store indexed => indexed.onTraderStats store) stores.traderStats := by
  induction events generalizing stores with
  | nil => exact ⟨rfl, rfl⟩
  | cons indexed events ih =>
      have next := ih (replayWalEntry block (.indexedEvent indexed) stores)
      by_cases within : indexed.blockNumber ≤ block
      · have skip : replayWalEntry block (.indexedEvent indexed) stores = stores := if_pos within
        rw [skip] at next
        simp only [within, decide_true, Bool.not_true, Bool.false_eq_true, not_false_eq_true,
          List.filter_cons_of_neg]
        have same : replayEntries block ((indexed :: events).map .indexedEvent) stores =
            replayEntries block (events.map .indexedEvent) stores :=
          congrArg (replayEntries block (events.map .indexedEvent)) skip
        rw [same]
        exact next
      · rw [replayWalEntry_event (UInt64.not_le.mp within)] at next
        have effects := replayEvent_effects indexed stores
        rw [effects.balances, effects.traderStats] at next
        simp only [within, decide_false, Bool.not_false, List.filter_cons_of_pos,
          List.foldl_cons]
        have same : replayEntries block ((indexed :: events).map .indexedEvent) stores =
            replayEntries block (events.map .indexedEvent) (replayEvent indexed stores) :=
          congrArg (replayEntries block (events.map .indexedEvent))
            (replayWalEntry_event (UInt64.not_le.mp within))
        rw [same]
        exact next

theorem applyAll_accounts (events : List IndexedEvent) (db : PerfDb) :
    (applyAll events db).balances =
        events.foldl (fun cache indexed => indexed.onBalances cache) db.balances ∧
      (applyAll events db).traderStats =
        events.foldl (fun store indexed => indexed.onTraderStats store) db.traderStats := by
  induction events generalizing db with
  | nil => exact ⟨rfl, rfl⟩
  | cons indexed events ih =>
      have effects := applyEvent_effects indexed db
      rw [List.foldl_cons, List.foldl_cons, ← effects.balances, ← effects.traderStats]
      exact ih (db.applyEvent indexed)

theorem foldl_onBalances_congr (events : List IndexedEvent) {left right : BalanceCache}
    (same : left.balances = right.balances) :
    (events.foldl (fun cache indexed => indexed.onBalances cache) left).balances =
      (events.foldl (fun cache indexed => indexed.onBalances cache) right).balances := by
  induction events generalizing left right with
  | nil => exact same
  | cons indexed events ih => exact ih (onBalances_congr indexed same)

/-- Balances and trader stats stay under their keys from call to call. -/
theorem storesAfter_keyed (steps : List Step) {start : Stores} (keyed : start.Keyed) :
    (storesAfter steps start).balances.balances.Keyed
        (fun balance => (balance.userAddress, balance.token)) ∧
      (storesAfter steps start).traderStats.stats.Keyed TraderStats.address := by
  rw [balances_after, traderStats_after]
  have balances := keyed.balances
  have traderStats := keyed.traderStats
  generalize start.balances = cache at balances ⊢
  generalize start.traderStats = store at traderStats ⊢
  induction steps generalizing cache store with
  | nil => exact ⟨balances, traderStats⟩
  | cons step steps ih =>
      refine ih _ ?_ _ ?_
      · cases step with
        | call indexed made =>
            cases made with
            | deposit | withdraw => exact BalanceCache.keyed_setRaw balances _ _ _ _ _
            | _ => exact balances
        | _ => exact balances
      · cases step with
        | call indexed made =>
            cases made with
            | traderStatsEnsure user => exact TraderStatsStore.keyed_ensure traderStats user
            | incrementOpenPositions user =>
                exact TraderStatsStore.keyed_incrementOpenPositions traderStats user
            | decrementOpenPositions user =>
                exact TraderStatsStore.keyed_decrementOpenPositions traderStats user
            | incrementTrade => exact TraderStatsStore.keyed_incrementTrade traderStats _ _ _ _ _ _ _
            | _ => exact traderStats
        | _ => exact traderStats

end Replay

end Accounts

/-- The log and the file of the snapshot rebuild a store as it was read, with the events that
replay does again. -/
theorem recovered_reads {order : Iteration} {draft : StateSnapshot}
    (reads : ∀ read : Read,
      read.run order (storesAfter (before read schedule) .new) draft = draft) :
    (recovered (some draft) ((logged schedule).map .indexedEvent)).balances.balances =
        ((replayed schedule .new).foldl (fun cache indexed => indexed.onBalances cache)
          (storesAfter (before .balances schedule) .new).balances).balances ∧
      (recovered (some draft) ((logged schedule).map .indexedEvent)).traderStats =
        (replayed schedule .new).foldl (fun store indexed => indexed.onTraderStats store)
          (storesAfter (before .traderStats schedule) .new).traderStats := by
  have block : draft.checkpoint.lastBlock = readBlock schedule .new :=
    (congrArg (fun snap => snap.checkpoint.lastBlock) (reads .checkpoint)).symm
  obtain ⟨keyedBalances, _⟩ := storesAfter_keyed (before .balances schedule) Stores.keyed_new
  obtain ⟨_, keyedStats⟩ := storesAfter_keyed (before .traderStats schedule) Stores.keyed_new
  have balances : (restoreSnapshot draft .new).balances.balances =
      (storesAfter (before .balances schedule) .new).balances.balances := by
    have listed : draft.balances =
        (storesAfter (before .balances schedule) .new).balances.balances.all order :=
      (congrArg StateSnapshot.balances (reads .balances)).symm
    change (draft.balances.foldl BalanceCache.set BalanceCache.new).balances = _
    rw [listed]
    exact Table.rebuild_through order _ _ keyedBalances BalanceCache.balances BalanceCache.set
      (fun _ _ => rfl) rfl
  have traderStats : (restoreSnapshot draft .new).traderStats =
      (storesAfter (before .traderStats schedule) .new).traderStats := by
    have listed : draft.traderStats =
        (storesAfter (before .traderStats schedule) .new).traderStats.stats.all order :=
      (congrArg StateSnapshot.traderStats (reads .traderStats)).symm
    apply TraderStatsStore.ext_stats
    change (draft.traderStats.foldl (fun store ts =>
      ((store.ensure ts.address).update ts.address fun _ => ts).2) TraderStatsStore.new).stats = _
    rw [listed]
    exact Table.rebuild_through order _ _ keyedStats TraderStatsStore.stats
      (fun store ts => ((store.ensure ts.address).update ts.address fun _ => ts).2)
      ensure_update rfl
  have whole : recovered (some draft) ((logged schedule).map .indexedEvent) =
      replayEntries (readBlock schedule .new) ((logged schedule).map .indexedEvent)
        (restoreSnapshot draft .new) := by
    rw [← block]
    rfl
  obtain ⟨replayedBalances, replayedStats⟩ := replay_accounts (readBlock schedule .new)
    (logged schedule) (restoreSnapshot draft .new)
  rw [whole, replayedBalances, replayedStats, traderStats]
  exact ⟨foldl_onBalances_congr _ balances, rfl⟩

/-- Of untorn events each is rebuilt as if it had been applied once. -/
theorem recovered_accounts {order : Iteration} {draft : StateSnapshot}
    (interleaves : Interleaves events schedule) (untorn : Untorn schedule)
    (ascending : events.Pairwise fun one other => one.blockNumber < other.blockNumber)
    (reads : ∀ read : Read,
      read.run order (storesAfter (before read schedule) .new) draft = draft) (db : PerfDb)
    (empty : db.toStores = .new) :
    (recovered (some draft) ((logged schedule).map .indexedEvent)).SameAccounts
      (applyAll (logged schedule) db).toStores := by
  have sorted := ascending.sublist (logged_front interleaves).sublist
  obtain ⟨recoveredBalances, recoveredStats⟩ := recovered_reads reads
  obtain ⟨appliedBalances, appliedStats⟩ := applyAll_accounts (logged schedule) db
  have inTurn {σ : Type} (act : σ → IndexedEvent → σ) (s : σ) :
      (logged schedule).foldl act s =
        (replayed schedule .new).foldl act ((covered schedule .new).foldl act s) := by
    rw [← List.foldl_append, covered_replayed sorted]
  have fresh : Stores.new.checkpoint.lastBlock = 0 := rfl
  constructor
  · rw [recoveredBalances, appliedBalances, empty, inTurn,
      ← read_balances interleaves untorn ascending fresh]
  · obtain ⟨ensured, read, named⟩ := read_traderStats interleaves untorn ascending fresh
    rw [recoveredStats, appliedStats, empty, inTurn, read]
    exact congrArg TraderStatsStore.stats (foldl_all_ensured ensured _ named)

section Recovers

/-- Whoever opens the database again finds every one of the events once in every balance and
in every trader's stats. -/
def CountsOnce (fmts : Formats) (events : List IndexedEvent) (r : Running) : Prop :=
  ∀ order config, ∃ db later, PerfDb.open_ fmts order config r.close = .ok db later ∧
    (∀ user token, db.balances.get user token =
      (applyAll events (.ofStores .new)).balances.get user token) ∧
    ∀ address, db.traderStats.get address =
      (applyAll events (.ofStores .new)).traderStats.get address

/-- The run returns, and the database opens again from what its reads have seen. -/
theorem snapshot_reopens {fmts : Formats} (walInverse : fmts.wal.RoundTrips)
    (inverse : fmts.snapshot.RoundTrips)
    (fits : ∀ indexed ∈ events, fmts.wal.Fits (.indexedEvent indexed))
    {order : Iteration} (listing : Iteration) {config : PerfDbConfig} {disk opened : Disk}
    (blank : disk.Blank) {db : PerfDb} (run : PerfDb.open_ fmts order config disk = .ok db opened)
    (draft : StateSnapshot) (interleaves : Interleaves events schedule) :
    ∃ o, runSteps fmts listing schedule ⟨opened.running db, draft⟩ = .ok () o ∧
      (∀ read : Read,
        read.run listing (storesAfter (before read schedule) .new) o.draft = o.draft) ∧
      ∀ order config, ∃ db later, PerfDb.open_ fmts order config o.running.close = .ok db later ∧
        db.toStores = recovered (some o.draft) ((logged schedule).map .indexedEvent) := by
  obtain ⟨db', opened', again, empty, follows⟩ := follows_blank fmts order config blank
  obtain ⟨rfl, rfl⟩ := EStateM.Result.ok.inj (again.symm.trans run)
  have begins : Tracks fmts listing .new [] ⟨opened'.running db', draft⟩ :=
    ⟨empty, follows.logged, fun read inside => (List.not_mem_nil inside).elim,
      fun _ => follows.files, fun inside => (List.not_mem_nil inside).elim⟩
  obtain ⟨o, returned, tracks⟩ := runSteps_tracks walInverse schedule begins
    (fun indexed member => fits indexed ((logged_front interleaves).subset member))
    (by rw [List.nil_append, interleaves.snapshot])
  rw [List.nil_append] at tracks
  have made {step : Step} (inside : step ∈ snapshotSteps) : step ∈ schedule :=
    List.mem_of_mem_filter (interleaves.snapshot ▸ inside)
  refine ⟨o, returned, fun read => tracks.reads read (made ?_), fun order config => ?_⟩
  · cases read <;> simp [snapshotSteps, Read.all]
  · have files := tracks.written (made (by simp [snapshotSteps]))
    obtain ⟨found, later, reopened, stores, _⟩ := PerfDb.open_returns order config
      (tracks.log.close files) fun snap _ => inverse snap
    exact ⟨found, later, reopened, stores⟩

/-- What is rebuilt of untorn events is what whoever opens the database again finds. -/
theorem countsOnce_of_untorn {fmts : Formats} {listing : Iteration} {o : Observed}
    (interleaves : Interleaves events schedule) (untorn : Untorn schedule)
    (ascending : events.Pairwise fun one other => one.blockNumber < other.blockNumber)
    (reads : ∀ read : Read,
      read.run listing (storesAfter (before read schedule) .new) o.draft = o.draft)
    (reopens : ∀ order config, ∃ db later,
      PerfDb.open_ fmts order config o.running.close = .ok db later ∧
        db.toStores = recovered (some o.draft) ((logged schedule).map .indexedEvent)) :
    CountsOnce fmts (logged schedule) o.running := by
  intro order config
  obtain ⟨found, later, reopened, stores⟩ := reopens order config
  have same := recovered_accounts interleaves untorn ascending reads (.ofStores .new) rfl
  rw [← stores] at same
  refine ⟨found, later, reopened, fun user token => ?_, fun address => ?_⟩
  · rw [BalanceCache.get, same.balances, BalanceCache.get]
  · rw [TraderStatsStore.get, same.traderStats, TraderStatsStore.get]

/-- A snapshot is taken on a new database while events of ascending blocks are processed.
However their steps fall between its reads, the run returns; if no event is torn, then
snapshot and log recover every event that was logged exactly once. -/
theorem untorn_snapshot_counts_once (fmts : Formats) (walInverse : fmts.wal.RoundTrips)
    (inverse : fmts.snapshot.RoundTrips) (events : List IndexedEvent)
    (fits : ∀ indexed ∈ events, fmts.wal.Fits (.indexedEvent indexed))
    (ascending : events.Pairwise fun one other => one.blockNumber < other.blockNumber)
    (order listing : Iteration) (config : PerfDbConfig) (disk opened : Disk)
    (blank : disk.Blank) (db : PerfDb) (run : PerfDb.open_ fmts order config disk = .ok db opened)
    (draft : StateSnapshot) (schedule : List Step) (interleaves : Interleaves events schedule) :
    ∃ o, runSteps fmts listing schedule ⟨opened.running db, draft⟩ = .ok () o ∧
      (Untorn schedule → CountsOnce fmts (logged schedule) o.running) := by
  obtain ⟨o, returned, reads, reopens⟩ :=
    snapshot_reopens walInverse inverse fits listing blank run draft interleaves
  exact ⟨o, returned, fun untorn =>
    countsOnce_of_untorn interleaves untorn ascending reads reopens⟩

def firstDeposit : IndexedEvent :=
  ⟨1, 1700000000, Vector.replicate 32 0, 0, 0,
    .collateralDeposited (Vector.replicate 20 1) (Vector.replicate 20 2) 100⟩

/-- A snapshot that is taken after the deposit is logged and before it is booked. -/
def splitSchedule : List Step :=
  [.walAppend firstDeposit, .call firstDeposit .eventsAppend,
    .call firstDeposit (.usersEnsure (Vector.replicate 20 1))] ++ snapshotSteps ++
  [.call firstDeposit (.deposit (Vector.replicate 20 1) (Vector.replicate 20 2) 100),
    .call firstDeposit .advanceBlock]

theorem splitSchedule_untorn : Untorn splitSchedule := by
  intro indexed member call inside read counts
  obtain rfl : indexed = firstDeposit := by simpa [logged, splitSchedule, Step.begins, snapshotSteps,
    Read.all] using member
  have parts : call = .eventsAppend ∨ call = .usersEnsure (Vector.replicate 20 1) ∨
      call = .deposit (Vector.replicate 20 1) (Vector.replicate 20 2) 100 ∨
      call = .advanceBlock := by
    simpa [calls, updates, firstDeposit] using inside
  have open_ : ¬ Covered splitSchedule firstDeposit := by
    rintro (early | zero)
    · simp [before, splitSchedule, snapshotSteps, Read.all, Step.isRead] at early
    · exact absurd zero (by decide)
  rcases parts with rfl | rfl | rfl | rfl
  · cases read <;> cases counts
  · cases read <;> cases counts
  · refine iff_of_false (fun early => ?_) open_
    cases read <;> cases counts
    simp [before, splitSchedule, snapshotSteps, Read.all, Step.isRead] at early
  · cases read <;> cases counts

theorem untorn_snapshot_counts_once_deposit :
    ∃ db opened o, PerfDb.open_ Bincode.formats .stored ⟨"data", "wal", 1024, .none⟩ .fresh =
        .ok db opened ∧
      runSteps Bincode.formats .stored splitSchedule
        ⟨opened.running db, Stores.new.stateSnapshot .stored⟩ = .ok () o ∧
      CountsOnce Bincode.formats (logged splitSchedule) o.running := by
  obtain ⟨db, opened, run, _⟩ := follows_blank Bincode.formats .stored
    ⟨"data", "wal", 1024, .none⟩ Disk.fresh_blank
  obtain ⟨o, returned, once⟩ := untorn_snapshot_counts_once Bincode.formats
    Bincode.format_roundTrips Bincode.snapshotFormat_roundTrips [firstDeposit]
    (fun indexed member => by
      obtain rfl := List.mem_singleton.mp member
      unfold Wal.Format.Fits
      decide +kernel)
    (List.pairwise_singleton _ _) .stored .stored ⟨"data", "wal", 1024, .none⟩ .fresh opened
    Disk.fresh_blank db run (Stores.new.stateSnapshot .stored) splitSchedule
    ⟨List.prefix_refl _, rfl⟩
  exact ⟨db, opened, o, run, returned, once splitSchedule_untorn⟩

end Recovers

end Threads

end Perfdb
