import Mathlib
import Perfdb.RecoveryAccounts
import Perfdb.WalTruncate

set_option autoImplicit false

namespace Perfdb

/-- The same accounts, orders, users, checkpoint, and markets but for their open interest. -/
structure Stores.SameRecord (left right : Stores) : Prop
    extends Stores.SameAccounts left right where
  orders : left.orders.orders = right.orders.orders
  users : left.users.users = right.users.users
  checkpoint : left.checkpoint = right.checkpoint
  markets : left.marketState.withoutOi = right.marketState.withoutOi

section Record

theorem OrderTable.finish_congr {left right : OrderTable} (same : left.orders = right.orders)
    (orderId : Hash) (f : Order → Order) :
    (left.finish orderId f).2.orders = (right.finish orderId f).2.orders := by
  simp only [OrderTable.finish, same]
  cases right.orders[orderId]? with
  | none => exact same
  | some order =>
      dsimp only
      split <;> rfl

theorem onOrders_congr (indexed : IndexedEvent) {left right : OrderTable}
    (same : left.orders = right.orders) :
    (indexed.onOrders left).orders = (indexed.onOrders right).orders := by
  obtain ⟨blockNumber, blockTimestamp, txHash, txIndex, logIndex, event⟩ := indexed
  cases event with
  | orderPlaced => simp only [IndexedEvent.onOrders, OrderTable.insert, same]
  | orderExecuted | orderCancelled => exact OrderTable.finish_congr same _ _
  | _ => exact same

theorem onUsers_congr (indexed : IndexedEvent) {left right : UserStore}
    (same : left.users = right.users) :
    (indexed.onUsers left).users = (indexed.onUsers right).users := by
  obtain ⟨blockNumber, blockTimestamp, txHash, txIndex, logIndex, event⟩ := indexed
  cases event with
  | positionOpened | orderPlaced | collateralDeposited | vaultCreated =>
      simp only [IndexedEvent.onUsers, UserStore.ensure, UserStore.setVault, same]
  | _ => exact same

theorem onMarkets_congr (indexed : IndexedEvent) {left right : MarketStateTable}
    (same : left.withoutOi = right.withoutOi) :
    (indexed.onMarkets left).withoutOi = (indexed.onMarkets right).withoutOi := by
  obtain ⟨blockNumber, blockTimestamp, txHash, txIndex, logIndex, event⟩ := indexed
  cases event with
  | fundingRateUpdated => exact MarketStateTable.withoutOi_setFundingRate _ same _ _
  | marketPaused => exact MarketStateTable.withoutOi_setPaused _ same true
  | _ => exact same

theorem Stores.SameRecord.effects {indexed : IndexedEvent} {left right left' right' : Stores}
    (same : left.SameRecord right) (one : indexed.Effects left left')
    (other : indexed.Effects right right') : left'.SameRecord right' where
  toSameAccounts := same.toSameAccounts.effects one other
  orders := by
    rw [one.orders, other.orders]
    exact onOrders_congr indexed same.orders
  users := by
    rw [one.users, other.users]
    exact onUsers_congr indexed same.users
  checkpoint := by
    rw [one.checkpoint, other.checkpoint, same.checkpoint]
  markets := by
    rw [one.markets, other.markets]
    exact onMarkets_congr indexed same.markets

end Record

section Quotes

/-- The price and the time that an entry sets in a market. -/
def WalEntry.quote (market : Nat) : WalEntry → Option (UInt64 × UInt64)
  | .priceTick timestampNs marketId price =>
      if marketId.toNat = market then some (price.bits, timestampNs) else none
  | _ => none

/-- The last of the prices that entries set in a market. -/
def lastQuote (market : Nat) (entries : List WalEntry) : Option (UInt64 × UInt64) :=
  entries.reverse.findSome? (WalEntry.quote market)

theorem lastQuote_append (market : Nat) (front back : List WalEntry) :
    lastQuote market (front ++ back) = (lastQuote market back).or (lastQuote market front) := by
  rw [lastQuote, List.reverse_append, List.findSome?_append]
  rfl

theorem lastQuote_append_one (market : Nat) (front : List WalEntry) (entry : WalEntry) :
    lastQuote market (front ++ [entry]) = (entry.quote market).or (lastQuote market front) := by
  rw [lastQuote_append, lastQuote, List.reverse_singleton, List.findSome?_singleton]

/-- The price and the time that a slot shows. -/
def MarketSlot.quote (slot : MarketSlot) : UInt64 × UInt64 :=
  (slot.latestPriceBits, slot.lastUpdateNs)

def MarketSlot.quoted (slot : MarketSlot) (quote : UInt64 × UInt64) : MarketSlot :=
  { slot with latestPriceBits := quote.1, lastUpdateNs := quote.2 }

theorem setPrice_slots (table : MarketStateTable) (marketId : MarketId) (price : F64)
    (timestampNs : UInt64) (market : Nat) :
    (table.setPrice marketId price timestampNs).slots[market]? =
      (table.slots[market]?).map fun slot =>
        (((WalEntry.priceTick timestampNs marketId price).quote market).map slot.quoted).getD
          slot := by
  rw [MarketStateTable.setPrice, MarketStateTable.withSlot, getElem?_modifySlot]
  by_cases here : marketId.toNat = market
  · simp only [WalEntry.quote, here, ↓reduceIte]
    rfl
  · simp [WalEntry.quote, here]

/-- Ticks leave in each market the last price they set there. -/
theorem applyTicks_slots (entries : List WalEntry) (table : MarketStateTable) (market : Nat) :
    (applyTicks entries table).slots[market]? =
      (table.slots[market]?).map fun slot =>
        ((lastQuote market entries).map slot.quoted).getD slot := by
  induction entries using List.reverseRecOn with
  | nil => simp [applyTicks, lastQuote]
  | append_singleton entries entry ih =>
      have whole : applyTicks (entries ++ [entry]) table =
          applyTicks [entry] (applyTicks entries table) := List.foldl_append
      rw [lastQuote_append_one, whole]
      cases entry with
      | priceTick timestampNs marketId price =>
          change ((applyTicks entries table).setPrice marketId price timestampNs).slots[market]? = _
          rw [setPrice_slots, ih, Option.map_map]
          refine congrArg (fun f => Option.map f table.slots[market]?) (funext fun slot => ?_)
          cases (WalEntry.priceTick timestampNs marketId price).quote market with
          | none => rfl
          | some quote => cases lastQuote market entries <;> rfl
      | _ => exact ih

def MarketStateTable.prices (table : MarketStateTable) : Vector (UInt64 × UInt64) marketCount :=
  table.slots.map MarketSlot.quote

theorem prices_setPrice (table : MarketStateTable) (marketId : MarketId) (price : F64)
    (timestampNs : UInt64) (market : Nat) :
    (table.setPrice marketId price timestampNs).prices[market]? =
      (table.prices[market]?).map fun shown =>
        ((WalEntry.priceTick timestampNs marketId price).quote market).getD shown := by
  simp only [MarketStateTable.prices, Vector.getElem?_map, setPrice_slots, Option.map_map]
  refine congrArg (fun f => Option.map f table.slots[market]?) (funext fun slot => ?_)
  cases quoted : (WalEntry.priceTick timestampNs marketId price).quote market with
  | none => simp only [Function.comp, Option.map_none, Option.getD_none]
  | some quote =>
      simp only [Function.comp, Option.map_some, Option.getD_some]
      rfl

theorem applyEvent_prices (indexed : IndexedEvent) (db : PerfDb) :
    (db.applyEvent indexed).marketState.prices = db.marketState.prices := by
  have markets := congrArg (Vector.map MarketSlot.quote) (applyEvent_effects indexed db).markets
  rw [MarketStateTable.withoutOi, MarketStateTable.withoutOi, Vector.map_map,
    Vector.map_map] at markets
  have still : (indexed.onMarkets db.marketState).prices = db.marketState.prices := by
    obtain ⟨blockNumber, blockTimestamp, txHash, txIndex, logIndex, event⟩ := indexed
    cases event with
    | fundingRateUpdated | marketPaused => exact map_modifySlot_of_hidden _ _ _ fun _ => rfl
    | _ => rfl
  exact Eq.trans markets still

/-- Each market shows the last price the log sets in it. -/
def Course.Priced (c : Course) : Prop :=
  ∀ market quote, lastQuote market c.log = some quote →
    ∀ shown, c.db.marketState.prices[market]? = some shown → shown = quote

theorem Course.Priced.step {c : Course} (priced : c.Priced) (action : Action) :
    (c.step action).Priced := by
  intro market quote last shown found
  cases action with
  | event indexed =>
      have log : (c.step (.event indexed)).log = c.log ++ [.indexedEvent indexed] :=
        (List.append_assoc _ _ _).symm
      rw [log, lastQuote_append_one] at last
      refine priced market quote last shown ?_
      rw [← applyEvent_prices indexed]
      exact found
  | tick sample =>
      have log : (c.step (.tick sample)).log =
          c.log ++ [.priceTick sample.timestampNs sample.marketId sample.price] :=
        (List.append_assoc _ _ _).symm
      rw [log, lastQuote_append_one] at last
      have moved := (prices_setPrice _ _ _ _ market).symm.trans found
      obtain ⟨old, was, now⟩ := Option.map_eq_some_iff.mp moved
      cases quoted : (WalEntry.priceTick sample.timestampNs sample.marketId
          sample.price).quote market with
      | none =>
          rw [quoted] at last now
          exact now.symm.trans (priced market quote last old was)
      | some latest =>
          rw [quoted] at last now
          exact now.symm.trans (Option.some.inj last)
  | snapshot order =>
      have log : (c.step (.snapshot order)).log = c.log := List.append_nil _
      rw [log] at last
      exact priced market quote last shown found

/-- Setting prices again that the log ends in changes none. -/
theorem Course.Priced.settled {c : Course} (priced : c.Priced) {front back : List WalEntry}
    (split : c.log = front ++ back) : applyTicks back c.db.marketState = c.db.marketState := by
  apply MarketStateTable.ext_slots
  ext market inside
  have slot := applyTicks_slots back c.db.marketState market
  rw [Vector.getElem?_eq_getElem inside, Vector.getElem?_eq_getElem inside, Option.map_some] at slot
  rw [Option.some.inj slot]
  cases last : lastQuote market back with
  | none => rfl
  | some quote =>
      have whole : lastQuote market c.log = some quote := by
        rw [split, lastQuote_append, last]
        rfl
      have shown : c.db.marketState.slots[market].quote = quote :=
        priced market quote whole _ (by
          rw [MarketStateTable.prices, Vector.getElem?_map, Vector.getElem?_eq_getElem inside]
          rfl)
      rw [← shown]
      rfl

end Quotes

/-- Every snapshot is taken between two blocks. -/
def AtBoundaries (actions : List Action) : Prop :=
  ∀ front order back, actions = front ++ .snapshot order :: back →
    ∃ last : UInt64, (∀ block ∈ front.filterMap Action.block, block ≤ last) ∧
      ∀ block ∈ back.filterMap Action.block, last < block

/-- A part of a run, from which a log without some of the entries before the latest
snapshot rebuilds the record. -/
structure Course.Compacts (actions front : List Action) (c : Course) : Prop where
  dated : Course.Dated front c
  priced : c.Priced
  ahead : ∀ back, actions = front ++ back →
    ∀ block ∈ back.filterMap Action.block, snapBlockOf c.latest < block
  recovers : ∀ gone left, c.head = gone ++ left →
    (recovered c.latest (left ++ c.tail)).SameRecord c.db.toStores

section Compact

variable {actions front : List Action} {action : Action} {c : Course}

theorem compacts_start {db : PerfDb} (empty : db.toStores = .new)
    (positive : ∀ block ∈ actions.filterMap Action.block, 1 ≤ block) :
    Course.Compacts actions [] (Course.start db) := by
  refine ⟨dated_start empty, fun market quote last => by contradiction, ?_, ?_⟩
  · rintro back rfl block member
    have above := UInt64.le_iff_toNat_le.mp (positive block member)
    exact UInt64.lt_iff_toNat_lt.mpr above
  · intro gone left split
    obtain ⟨rfl, rfl⟩ := List.append_eq_nil_iff.mp split.symm
    change Stores.new.SameRecord db.toStores
    rw [empty]
    exact ⟨Stores.SameAccounts.refl _, rfl, rfl, rfl, rfl⟩

/-- Between two blocks a snapshot is behind whatever is still to come. -/
theorem Course.Dated.boundary (dated : c.Dated front) (boundaries : AtBoundaries actions)
    {order : Iteration} {back : List Action} (split : actions = front ++ .snapshot order :: back)
    (positive : ∀ block ∈ actions.filterMap Action.block, 1 ≤ block) (block : UInt64)
    (member : block ∈ back.filterMap Action.block) : c.db.checkpoint.lastBlock < block := by
  obtain ⟨last, before, after⟩ := boundaries front order back split
  rcases dated.block with zero | own
  · have inside : block ∈ actions.filterMap Action.block := by
      rw [split, List.filterMap_append, List.filterMap_cons]
      exact List.mem_append_right _ member
    rw [zero]
    exact UInt64.lt_iff_toNat_lt.mpr (UInt64.le_iff_toNat_le.mp (positive block inside))
  · exact UInt64.lt_of_le_of_lt (before _ own) (after block member)

theorem Course.Compacts.step (compacts : c.Compacts actions front) (ordered : Ordered actions)
    (boundaries : AtBoundaries actions)
    (positive : ∀ block ∈ actions.filterMap Action.block, 1 ≤ block)
    (inside : front ++ [action] <+: actions) :
    (c.step action).Compacts actions (front ++ [action]) := by
  obtain ⟨dated, priced, ahead, recovers⟩ := compacts
  obtain ⟨later, whole⟩ := inside
  have split : actions = front ++ action :: later := by
    rw [← whole, List.append_assoc, List.singleton_append]
  have next := dated.step (ordered.of_prefix ⟨later, whole⟩)
  have rest (back : List Action) (same : actions = front ++ [action] ++ back) :
      actions = front ++ action :: back := by
    rw [same, List.append_assoc, List.singleton_append]
  cases action with
  | event indexed =>
      have above : snapBlockOf c.latest < indexed.blockNumber :=
        ahead _ split _ List.mem_cons_self
      refine ⟨next, priced.step _, fun back same block member => ?_, fun gone left head => ?_⟩
      · exact ahead _ (rest back same) block (List.mem_cons_of_mem _ member)
      · have before := recovers gone left head
        have grown : recovered c.latest (left ++ (c.tail ++ [.indexedEvent indexed])) =
            replayEvent indexed (recovered c.latest (left ++ c.tail)) := by
          rw [← List.append_assoc, recovered, replayEntries_append]
          exact replayWalEntry_event above
        change (recovered c.latest (left ++ (c.tail ++ [.indexedEvent indexed]))).SameRecord _
        rw [grown]
        exact before.effects (replayEvent_effects indexed _) (applyEvent_effects indexed c.db)
  | tick sample =>
      refine ⟨next, priced.step _, fun back same block member => ?_, fun gone left head => ?_⟩
      · exact ahead _ (rest back same) block member
      · have before := recovers gone left head
        change (recovered c.latest (left ++ (c.tail ++ [.priceTick sample.timestampNs
          sample.marketId sample.price]))).SameRecord _
        rw [← List.append_assoc, recovered, replayEntries_append]
        exact { before with
          markets := MarketStateTable.withoutOi_setPrice _ before.markets _ _ }
  | snapshot order =>
      refine ⟨next, priced.step _, fun back same block member => ?_, fun gone left head => ?_⟩
      · exact dated.boundary boundaries (rest back same) positive block member
      · have log : c.log = gone ++ left := head
        have skipped : ∀ entry ∈ left, entry.Skipped c.db.checkpoint.lastBlock :=
          fun entry member => dated.skipped entry (log ▸ List.mem_append_right gone member)
        have replayed := replayEntries_skipped skipped
          (restoreSnapshot (c.db.stateSnapshot order) .new)
        have markets := restore_markets order c.db.toStores
        have accounts := restore_accounts order dated.keyed
        have orders := restore_orders order dated.keyed
        have users := restore_users order dated.keyed
        have checkpoint := restore_checkpoint order c.db.toStores
        change (recovered (some (c.db.stateSnapshot order)) (left ++ [])).SameRecord c.db.toStores
        rw [List.append_nil]
        change (replayEntries c.db.checkpoint.lastBlock left
          (restoreSnapshot (c.db.stateSnapshot order) .new)).SameRecord c.db.toStores
        rw [replayed]
        change (restoreSnapshot (c.db.stateSnapshot order) .new).marketState = _ at markets
        rw [markets, priced.settled log]
        exact ⟨⟨accounts.balances, accounts.traderStats⟩, orders, users, checkpoint, rfl⟩

/-- Every part of a run with snapshots between blocks compacts. -/
theorem course_compacts {db : PerfDb} (empty : db.toStores = .new) (ordered : Ordered actions)
    (boundaries : AtBoundaries actions)
    (positive : ∀ block ∈ actions.filterMap Action.block, 1 ≤ block) :
    (course db actions).Compacts actions actions :=
  foldl_holds (Course.Compacts actions) (compacts_start empty positive)
    fun _ _ _ inside compacts => compacts.step ordered boundaries positive inside

/-- What a run has logged before a snapshot stays before its latest one. -/
theorem head_prefix (actions : List Action) (c : Course) :
    c.head <+: (actions.foldl Course.step c).head := by
  induction actions generalizing c with
  | nil => exact List.prefix_refl _
  | cons action actions ih =>
      refine List.IsPrefix.trans ?_ (ih (c.step action))
      cases action with
      | event indexed => exact List.prefix_refl _
      | tick sample => exact List.prefix_refl _
      | snapshot order => exact List.prefix_append _ _

end Compact

def LoggedBeforeSnapshot (actions : List Action) (entries : List WalEntry) : Prop :=
  entries = [] ∨ ∃ front order back, actions = front ++ .snapshot order :: back ∧
    entries <+: front.filterMap Action.entry

theorem LoggedBeforeSnapshot.head {actions : List Action} {entries : List WalEntry}
    (older : LoggedBeforeSnapshot actions entries) {db : PerfDb} (empty : db.toStores = .new)
    (ordered : Ordered actions) : entries <+: (course db actions).head := by
  rcases older with rfl | ⟨front, order, back, rfl, within⟩
  · exact List.nil_prefix
  · have dated := course_dated empty (ordered.of_prefix (List.prefix_append front _))
    rw [← dated.log] at within
    refine within.trans ?_
    have whole : course db (front ++ .snapshot order :: back) =
        back.foldl Course.step ((course db front).step (.snapshot order)) := List.foldl_append
    rw [whole]
    exact head_prefix back ((course db front).step (.snapshot order))

/-- The same answers about orders, balances, users, trader stats, prices and controls of
the markets, and the last block. -/
structure Stores.SameAnswers (left right : Stores) : Prop where
  orders : ∀ id, left.orders.get id = right.orders.get id
  balances : ∀ user token, left.balances.get user token = right.balances.get user token
  users : ∀ address, left.users.get address = right.users.get address
  traderStats : ∀ address, left.traderStats.get address = right.traderStats.get address
  markets : ∀ marketId, SameMarket left.marketState right.marketState marketId
  lastBlock : left.checkpoint.lastBlock = right.checkpoint.lastBlock

theorem Stores.SameRecord.answers {left right : Stores} (same : left.SameRecord right) :
    left.SameAnswers right where
  orders id := congrArg (fun orders => orders[id]?) same.orders
  balances user token := congrArg (fun balances => balances[(user, token)]?) same.balances
  users address := congrArg (fun users => users[address]?) same.users
  traderStats address := congrArg (fun stats => stats[address]?) same.traderStats
  markets := SameMarket.of_withoutOi same.markets
  lastBlock := congrArg CheckpointStore.lastBlock same.checkpoint

/-- `truncate_before` on the log of a closed database. -/
def Disk.truncateBefore (order : Iteration) (path : String) (keepFrom : Nat) (disk : Disk) :
    Except PerfDbError (Disk × Nat) :=
  (Wal.truncateBefore order path disk.log.dir keepFrom).map fun (dir, removed) =>
    ({ disk with log := { disk.log with dir } }, removed)

theorem Disk.Stands.truncate {fmts : Formats} {disk : Disk} {latest : Option StateSnapshot}
    {entries : List WalEntry} (stands : disk.Stands fmts latest entries) (order : Iteration)
    (path : String) (keepFrom : Nat) :
    ∃ kept removed left, disk.truncateBefore order path keepFrom = .ok (kept, removed) ∧
      entries = Wal.entriesBelow fmts.wal (Wal.segmentsOf disk.log.dir) keepFrom ++ left ∧
      kept.Stands fmts latest left := by
  obtain ⟨dir, removed, left, run, split, clean⟩ := stands.clean.truncate order path keepFrom
  refine ⟨{ disk with log := { disk.log with dir } }, removed, left, ?_, split, clean,
    stands.latest, stands.log, stands.snapshots⟩
  rw [Disk.truncateBefore, run]
  rfl

/-- Deleting segments that hold only what was logged before the latest snapshot takes
nothing away from what opening the database again answers. -/
theorem compacted_log_recovers (fmts : Formats) (walInverse : fmts.wal.RoundTrips)
    (inverse : fmts.snapshot.RoundTrips) (actions : List Action)
    (valid : ∀ action ∈ actions, action.Valid fmts.wal) (ordered : Ordered actions)
    (positive : ∀ block ∈ actions.filterMap Action.block, 1 ≤ block)
    (boundaries : AtBoundaries actions) (order : Iteration) (config : PerfDbConfig)
    (disk opened : Disk) (blank : disk.Blank) (db : PerfDb)
    (run : PerfDb.open_ fmts order config disk = .ok db opened) (r : Running)
    (returned : runActions fmts actions (opened.running db) = .ok () r)
    (listing : Iteration) (path : String) (keepFrom : Nat)
    (older : LoggedBeforeSnapshot actions
      (Wal.entriesBelow fmts.wal (Wal.segmentsOf r.close.log.dir) keepFrom)) :
    ∃ kept removed, r.close.truncateBefore listing path keepFrom = .ok (kept, removed) ∧
      ∀ order config, ∃ db later, PerfDb.open_ fmts order config kept = .ok db later ∧
        db.toStores.SameAnswers r.db.toStores := by
  obtain ⟨db', opened', again, empty, follows⟩ := follows_blank fmts order config blank
  obtain ⟨rfl, rfl⟩ := EStateM.Result.ok.inj (again.symm.trans run)
  obtain ⟨r', returned', reached⟩ :=
    ordered_follows walInverse valid ordered empty follows (List.prefix_refl _)
  obtain ⟨_, rfl⟩ := EStateM.Result.ok.inj (returned'.symm.trans returned)
  have stands := reached.logged.close reached.files
  obtain ⟨kept, removed, left, truncated, split, whole⟩ := stands.truncate listing path keepFrom
  refine ⟨kept, removed, truncated, fun order config => ?_⟩
  obtain ⟨again, later, reopened, stores, _⟩ :=
    PerfDb.open_returns order config whole fun snap _ => inverse snap
  refine ⟨again, later, reopened, ?_⟩
  -- What is left of the log is a part of the head, and the whole tail.
  obtain ⟨rest, head⟩ := older.head empty ordered
  rw [Course.log, ← head, List.append_assoc] at split
  have left_eq := List.append_cancel_left split
  have recovers := (course_compacts empty ordered boundaries positive).recovers _ rest head.symm
  rw [left_eq, ← reached.stores] at recovers
  rw [stores]
  exact recovers.answers

/-- A deposit and a tick, and a snapshot after them. -/
def savedDeposit : List Action :=
  [.event ⟨1, 1700000000, Vector.replicate 32 0, 0, 0,
      .collateralDeposited (Vector.replicate 20 1) (Vector.replicate 20 2) 100⟩,
    .tick ⟨1000000000, 0, Vector.replicate 6 0, ⟨0x4059000000000000⟩⟩, .snapshot .stored]

theorem savedDeposit_valid : ∀ action ∈ savedDeposit, action.Valid Bincode.format := by
  simp only [savedDeposit, List.forall_mem_cons, Action.Valid, Action.entry, Option.some.injEq,
    forall_eq', reduceCtorEq, false_implies, implies_true, Action.tick.injEq, true_and, and_true,
    List.not_mem_nil]
  refine ⟨?_, by decide, ?_⟩
  · unfold Wal.Format.Fits
    decide +kernel
  · unfold Wal.Format.Fits
    decide +kernel

theorem savedDeposit_ordered : Ordered savedDeposit := List.pairwise_singleton _ _

theorem savedDeposit_positive : ∀ block ∈ savedDeposit.filterMap Action.block, 1 ≤ block := by
  intro block member
  rw [List.mem_singleton.mp member]
  exact UInt64.le_refl _

theorem savedDeposit_boundaries : AtBoundaries savedDeposit := by
  intro front order back split
  refine ⟨1, fun block member => ?_, fun block member => ?_⟩
  · have inside : block ∈ savedDeposit.filterMap Action.block := by
      rw [split, List.filterMap_append]
      exact List.mem_append_left _ member
    rw [List.mem_singleton.mp inside]
    exact UInt64.le_refl _
  · have none : back = [] := by
      rcases front with _ | ⟨first, _ | ⟨second, _ | ⟨third, front⟩⟩⟩ <;>
        simp [savedDeposit] at split
      exact split.2.2.2
    rw [none] at member
    contradiction

theorem compacted_log_recovers_deposit :
    ∃ db opened r kept removed,
      PerfDb.open_ Bincode.formats .stored ⟨"data", "wal", 1024, .none⟩ .fresh = .ok db opened ∧
      runActions Bincode.formats savedDeposit (opened.running db) = .ok () r ∧
      r.close.truncateBefore .stored "wal" 1 = .ok (kept, removed) ∧
      ∀ order config, ∃ again later, PerfDb.open_ Bincode.formats order config kept =
        .ok again later ∧ again.toStores.SameAnswers r.db.toStores := by
  obtain ⟨db, opened, run, empty, follows⟩ := follows_blank Bincode.formats .stored
    ⟨"data", "wal", 1024, .none⟩ Disk.fresh_blank
  obtain ⟨r, returned, reached⟩ := ordered_follows Bincode.format_roundTrips savedDeposit_valid
    savedDeposit_ordered empty follows (List.prefix_refl _)
  obtain ⟨_, _, left, _, split, _⟩ :=
    (reached.logged.close reached.files).truncate .stored "wal" 1
  -- The segments that go hold entries of the snapshot only, however many there are.
  have older : LoggedBeforeSnapshot savedDeposit
      (Wal.entriesBelow Bincode.format (Wal.segmentsOf r.close.log.dir) 1) :=
    Or.inr ⟨savedDeposit.take 2, .stored, [], rfl, ⟨left, split.symm⟩⟩
  obtain ⟨kept, removed, truncated, recovers⟩ := compacted_log_recovers Bincode.formats
    Bincode.format_roundTrips Bincode.snapshotFormat_roundTrips savedDeposit savedDeposit_valid
    savedDeposit_ordered savedDeposit_positive savedDeposit_boundaries .stored
    ⟨"data", "wal", 1024, .none⟩ .fresh opened Disk.fresh_blank db run r returned .stored "wal" 1 older
  exact ⟨db, opened, r, kept, removed, run, returned, truncated, recovers⟩

end Perfdb
