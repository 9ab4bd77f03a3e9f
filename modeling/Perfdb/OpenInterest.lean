import Mathlib
import Perfdb.OpenCounters

set_option autoImplicit false

namespace Perfdb

def MarketStateTable.sideOi (table : MarketStateTable) (marketId : MarketId) (isLong : Bool) :
    FixedI128 :=
  if isLong then (table.openInterest marketId).1 else (table.openInterest marketId).2

/-- What an event adds to one side of a market. -/
def IndexedEvent.interest (indexed : IndexedEvent) (positions : PositionTable)
    (marketId : MarketId) (isLong : Bool) : FixedI128 :=
  match indexed.event with
  | .positionOpened _ _ market long sizeUsd _ _ _ _ =>
      if market = marketId ∧ long = isLong then sizeUsd else 0
  | .positionClosed positionId _ market closedSizeUsd _ _ _ =>
      match positions.get positionId with
      | some p => if market = marketId ∧ p.isLong = isLong then -closedSizeUsd else 0
      | none => 0
  | _ => 0

section Side

variable (table : MarketStateTable) (market marketId : MarketId) (isLong : Bool)

theorem openInterest_withInner (f : MarketInner → MarketInner) (inside : marketId.toNat < marketCount) :
    (table.withInner market f).openInterest marketId =
      if market = marketId then
        ((f table.slots[marketId.toNat].inner).longOi, (f table.slots[marketId.toNat].inner).shortOi)
      else table.openInterest marketId := by
  simp only [MarketStateTable.openInterest, MarketStateTable.withInner, MarketStateTable.withSlot,
    Vector.getElem?_eq_getElem inside, getElem_modifySlot, UInt16.toNat_inj]
  split <;> rfl

theorem sideOi_add (long : Bool) (delta : FixedI128) (inside : marketId.toNat < marketCount) :
    (if long then table.addLongOi market delta else table.addShortOi market delta).sideOi marketId
        isLong =
      table.sideOi marketId isLong + if market = marketId ∧ long = isLong then delta else 0 := by
  have here : table.openInterest marketId =
      (table.slots[marketId.toNat].inner.longOi, table.slots[marketId.toNat].inner.shortOi) := by
    simp only [MarketStateTable.openInterest, Vector.getElem?_eq_getElem inside]
  have long_side := openInterest_withInner table market marketId
    (fun inner => { inner with longOi := inner.longOi + delta }) inside
  have short_side := openInterest_withInner table market marketId
    (fun inner => { inner with shortOi := inner.shortOi + delta }) inside
  cases long <;> cases isLong <;>
    simp only [MarketStateTable.sideOi, MarketStateTable.addLongOi, MarketStateTable.addShortOi,
      if_true, Bool.false_eq_true, if_false, long_side, short_side, here] <;>
    by_cases same : market = marketId <;> simp [same]

theorem sideOi_frame {f : MarketInner → MarketInner}
    (frame : ∀ inner, (f inner).longOi = inner.longOi ∧ (f inner).shortOi = inner.shortOi)
    (inside : marketId.toNat < marketCount) :
    (table.withInner market f).sideOi marketId isLong = table.sideOi marketId isLong := by
  have same : (table.withInner market f).openInterest marketId = table.openInterest marketId := by
    rw [openInterest_withInner _ _ _ _ inside, (frame _).1, (frame _).2]
    split
    · simp only [MarketStateTable.openInterest, Vector.getElem?_eq_getElem inside]
    · rfl
  rw [MarketStateTable.sideOi, same, MarketStateTable.sideOi]

end Side

theorem applyEvent_sideOi (indexed : IndexedEvent) (db : PerfDb) (marketId : MarketId)
    (isLong : Bool) (inside : marketId.toNat < marketCount) :
    (db.applyEvent indexed).marketState.sideOi marketId isLong =
      db.marketState.sideOi marketId isLong + indexed.interest db.positions marketId isLong := by
  obtain ⟨blockNumber, blockTimestamp, txHash, txIndex, logIndex, event⟩ := indexed
  cases event with
  | positionOpened positionId user market long sizeUsd =>
      exact sideOi_add db.marketState market marketId isLong long sizeUsd inside
  | positionClosed positionId user market closedSizeUsd exitPrice realizedPnl isFullClose =>
      simp only [PerfDb.applyEvent, IndexedEvent.interest]
      split
      · rename_i pos found
        rw [PositionTable.get_update, if_pos rfl] at found
        obtain ⟨p, before, rfl⟩ := Option.map_eq_some_iff.mp found
        rw [before]
        cases isFullClose <;> exact sideOi_add db.marketState market marketId isLong _ _ inside
      · rename_i found
        rw [PositionTable.get_update, if_pos rfl] at found
        rw [Option.map_eq_none_iff.mp found]
        exact (add_zero _).symm
  | fundingRateUpdated market =>
      refine Eq.trans ?_ (add_zero _).symm
      exact sideOi_frame db.marketState market marketId isLong (fun _ => ⟨rfl, rfl⟩) inside
  | marketPaused market =>
      refine Eq.trans ?_ (add_zero _).symm
      exact sideOi_frame db.marketState market marketId isLong (fun _ => ⟨rfl, rfl⟩) inside
  | _ =>
      simp only [PerfDb.applyEvent, PerfDb.publishFound_toStores]
      exact (add_zero _).symm

/-- What a position adds to one side of a market. -/
def sized (marketId : MarketId) (isLong : Bool) (h : Holding) : FixedI128 :=
  if h.marketId = marketId ∧ h.isLong = isLong then h.sizeUsd else 0

/-- The summed sizes of the open positions of one side of a market. -/
def PositionTable.openSize (order : Iteration) (table : PositionTable) (marketId : MarketId)
    (isLong : Bool) : FixedI128 :=
  (((table.all order).filter fun p =>
    p.status = .open_ ∧ p.marketId = marketId ∧ p.isLong = isLong).map Position.sizeUsd).sum

theorem openSize_eq (order : Iteration) (table : PositionTable) (marketId : MarketId)
    (isLong : Bool) :
    table.openSize order marketId isLong = table.heldTotal (sized marketId isLong) := by
  rw [PositionTable.openSize, PositionTable.heldTotal, Table.total_eq_sum_all _ _ order]
  change _ = ((table.all order).map _).sum
  induction table.all order with
  | nil => rfl
  | cons p ps ih =>
      rw [List.map_cons, List.sum_cons, ← ih, List.filter_cons]
      by_cases isOpen : p.status = .open_ <;>
        by_cases here : p.marketId = marketId ∧ p.isLong = isLong <;>
        simp [weigh, Position.holding, sized, isOpen, here]

/-- Long and short open interest of every market are the summed sizes of its open
positions. -/
def Stores.InterestExact (stores : Stores) : Prop :=
  ∀ order marketId, marketId.toNat < marketCount →
    stores.marketState.openInterest marketId =
      (stores.positions.openSize order marketId true, stores.positions.openSize order marketId false)

/-- After `front` the event is well formed: ids are opened once and in valid markets, and
what modifies, closes or liquidates refers to an open position, with its own user, market
and a size that fits. -/
structure Event.WellFormedAfter (front : List IndexedEvent) (event : Event) : Prop where
  once : ∀ id, event.Opens id → ∀ earlier ∈ front, ¬ earlier.event.Opens id
  market : ∀ positionId user marketId isLong sizeUsd leverage entryPrice token amount,
    event = .positionOpened positionId user marketId isLong sizeUsd leverage entryPrice token
      amount → marketId.toNat < marketCount
  modified : ∀ positionId size collateral amount,
    event = .positionModified positionId size collateral amount →
      ∃ h, holding positionId front = some h
  closed : ∀ positionId user marketId size price pnl isFullClose,
    event = .positionClosed positionId user marketId size price pnl isFullClose →
      ∃ h, holding positionId front = some h ∧ h.user = user ∧ h.marketId = marketId ∧
        if isFullClose then size = h.sizeUsd else size < h.sizeUsd
  liquidated : ∀ positionId user marketId price penalty keeper,
    event = .liquidation positionId user marketId price penalty keeper →
      ∃ h, holding positionId front = some h ∧ h.user = user ∧ h.marketId = marketId

/-- A modification keeps the size, and what is liquidated has none left. -/
def Event.KeepsInterest (front : List IndexedEvent) : Event → Prop
  | .positionModified positionId newSizeUsd _ _ =>
      ∀ h, holding positionId front = some h → newSizeUsd = h.sizeUsd
  | .liquidation positionId _ _ _ _ _ => ∀ h, holding positionId front = some h → h.sizeUsd = 0
  | _ => True

/-- What a run keeps as long as its events keep the interest. -/
structure Exposed (front : List IndexedEvent) (stores : Stores) : Prop where
  holds : stores.positions.Holds front
  known : ∀ id, (stores.positions.get id).isSome → ∃ earlier ∈ front, earlier.event.Opens id
  markets : ∀ id h, holding id front = some h → h.marketId.toNat < marketCount
  exact : stores.InterestExact

theorem interestExact_iff (stores : Stores) : stores.InterestExact ↔
    ∀ marketId isLong, marketId.toNat < marketCount →
      stores.marketState.sideOi marketId isLong =
        stores.positions.heldTotal (sized marketId isLong) := by
  constructor
  · intro exact marketId isLong inside
    have sides := exact .stored marketId inside
    cases isLong <;> simp only [MarketStateTable.sideOi, sides, ← openSize_eq .stored] <;> rfl
  · intro sides order marketId inside
    have long := sides marketId true inside
    have short := sides marketId false inside
    rw [openSize_eq, openSize_eq, ← long, ← short]
    rfl

section Step

variable {front : List IndexedEvent} {indexed : IndexedEvent} {db : PerfDb}

theorem event_exact_iff (exposed : Exposed front db.toStores) {id : Hash}
    (about : indexed.event.subject = some id) :
    (db.applyEvent indexed).toStores.InterestExact ↔
      ∀ marketId isLong, marketId.toNat < marketCount →
        indexed.interest db.positions marketId isLong +
            weigh (sized marketId isLong) (holding id front) =
          weigh (sized marketId isLong) (Holding.step id (holding id front) indexed.event) := by
  rw [interestExact_iff]
  refine forall_congr' fun marketId => forall_congr' fun isLong => forall_congr' fun inside => ?_
  have before := (interestExact_iff _).mp exposed.exact marketId isLong inside
  have moved := heldTotal_event (sized marketId isLong) exposed.holds about
  rw [applyEvent_sideOi _ _ _ _ inside, before, applyEvent_positions]
  constructor
  · intro same
    rw [← same, add_assoc] at moved
    exact add_left_cancel moved
  · intro step
    rw [← step, ← add_assoc] at moved
    exact (add_right_cancel moved).symm

/-- A well-formed event keeps the open interest exact exactly when it keeps the size of
what it modifies and liquidates nothing that has a size. -/
theorem wellFormed_exact_iff (wellFormed : indexed.event.WellFormedAfter front)
    (exposed : Exposed front db.toStores) :
    (db.applyEvent indexed).toStores.InterestExact ↔ indexed.event.KeepsInterest front := by
  have fresh (id : Hash) (opens : indexed.event.Opens id) : db.positions.get id = none := by
    refine Option.not_isSome_iff_eq_none.mp fun present => ?_
    obtain ⟨earlier, member, before⟩ := exposed.known id present
    exact wellFormed.once id opens earlier member before
  have held := exposed.holds
  have exact_iff (id : Hash) (about : indexed.event.subject = some id) :=
    event_exact_iff exposed about
  obtain ⟨blockNumber, blockTimestamp, txHash, txIndex, logIndex, event⟩ := indexed
  cases event with
  | positionOpened positionId =>
      have absent : holding positionId front = none := by
        rw [← held positionId, fresh positionId rfl]
        rfl
      rw [exact_iff positionId rfl, absent]
      simp [IndexedEvent.interest, weigh, Holding.step, sized, Event.KeepsInterest]
  | positionClosed positionId user market size price pnl isFullClose =>
      obtain ⟨h, isOpen, rfl, rfl, fits⟩ := wellFormed.closed _ _ _ _ _ _ _ rfl
      obtain ⟨p, stored, side⟩ : ∃ p, db.positions.get positionId = some p ∧ p.isLong = h.isLong := by
        obtain ⟨p, stored, open_⟩ := Option.bind_eq_some_iff.mp ((held positionId).trans isOpen)
        unfold Position.holding at open_
        split at open_
        · obtain rfl := Option.some.inj open_
          exact ⟨p, stored, rfl⟩
        · contradiction
      rw [exact_iff positionId rfl, isOpen]
      refine iff_of_true (fun marketId isLong inside => ?_) trivial
      simp only [IndexedEvent.interest, stored, side, weigh, Holding.step, sized, if_true,
        Option.map_some, Option.getD_some]
      by_cases here : h.marketId = marketId ∧ h.isLong = isLong
      · cases isFullClose with
        | true =>
            obtain rfl : size = h.sizeUsd := fits
            simp [here]
        | false => simp [sized, here, sub_eq_neg_add]
      · cases isFullClose <;> simp [sized, here]
  | positionModified positionId newSizeUsd =>
      obtain ⟨h, isOpen⟩ := wellFormed.modified _ _ _ _ rfl
      have market := exposed.markets positionId h isOpen
      rw [exact_iff positionId rfl]
      simp only [Event.KeepsInterest, isOpen, Option.some.injEq, forall_eq', IndexedEvent.interest,
        weigh, Holding.step, if_true, Option.map_some, Option.getD_some, zero_add]
      constructor
      · intro same
        have here := same h.marketId h.isLong market
        simpa [sized] using here.symm
      · rintro rfl marketId isLong inside
        rfl
  | liquidation positionId user =>
      obtain ⟨h, isOpen, _⟩ := wellFormed.liquidated _ _ _ _ _ _ rfl
      have market := exposed.markets positionId h isOpen
      rw [exact_iff positionId rfl]
      simp only [Event.KeepsInterest, isOpen, Option.some.injEq, forall_eq', IndexedEvent.interest,
        weigh, Holding.step, if_true, Option.map_some, Option.getD_some, Option.map_none,
        Option.getD_none, zero_add]
      constructor
      · intro same
        have here := same h.marketId h.isLong market
        simpa [sized] using here
      · intro empty marketId isLong inside
        simp [sized, empty]
  | _ =>
      refine iff_of_true ((interestExact_iff _).mpr fun marketId isLong inside => ?_) trivial
      rw [applyEvent_sideOi _ _ _ _ inside, applyEvent_positions]
      exact (add_zero _).trans ((interestExact_iff _).mp exposed.exact marketId isLong inside)

theorem Exposed.event (wellFormed : indexed.event.WellFormedAfter front)
    (exposed : Exposed front db.toStores) (keeps : indexed.event.KeepsInterest front) :
    Exposed (front ++ [indexed]) (db.applyEvent indexed).toStores := by
  refine ⟨?_, fun id present => ?_, fun id h held => ?_,
    (wellFormed_exact_iff wellFormed exposed).mpr keeps⟩
  · rw [applyEvent_positions]
    exact exposed.holds.event indexed
  · rw [applyEvent_positions] at present
    rcases onPositions_known present with before | now
    · obtain ⟨earlier, member, opens⟩ := exposed.known id before
      exact ⟨earlier, List.mem_append_left _ member, opens⟩
    · exact ⟨indexed, by simp, now⟩
  · rw [holding_append_one] at held
    have before := exposed.markets id
    have market := wellFormed.market
    cases event : indexed.event with
    | positionOpened positionId =>
        rw [event] at held
        simp only [Holding.step] at held
        split at held
        · obtain rfl := Option.some.inj held
          exact market _ _ _ _ _ _ _ _ _ event
        · exact before h held
    | positionClosed positionId user marketId size price pnl isFullClose =>
        rw [event] at held
        simp only [Holding.step] at held
        split at held
        · split at held
          · contradiction
          · obtain ⟨old, was, rfl⟩ := Option.map_eq_some_iff.mp held
            exact before old was
        · exact before h held
    | positionModified =>
        rw [event] at held
        simp only [Holding.step] at held
        split at held
        · obtain ⟨old, was, rfl⟩ := Option.map_eq_some_iff.mp held
          exact before old was
        · exact before h held
    | liquidation =>
        rw [event] at held
        simp only [Holding.step] at held
        split at held
        · contradiction
        · exact before h held
    | _ =>
        rw [event] at held
        exact before h held

end Step

theorem exposed_new : Exposed [] .new := by
  refine ⟨PositionTable.holds_new, fun id present => ?_, fun id h held => ?_,
    (interestExact_iff _).mpr fun marketId isLong inside => ?_⟩
  · change (PositionTable.new.get id).isSome at present
    rw [PositionTable.get_new] at present
    contradiction
  · exact absurd held nofun
  · change MarketStateTable.new.sideOi marketId isLong = PositionTable.new.heldTotal _
    rw [heldTotal_new, MarketStateTable.sideOi, MarketStateTable.openInterest,
      MarketStateTable.new, Vector.getElem?_replicate, if_pos inside]
    cases isLong <;> rfl

/-- In the runs of well-formed events the open interest stays exact exactly as long as
nothing is resized and nothing with a size is liquidated. -/
theorem open_interest_iff (fmt : Wal.Format) (events : List IndexedEvent)
    (wellFormed : ∀ front indexed, front ++ [indexed] <+: events →
      indexed.event.WellFormedAfter front) (r t : Running) (empty : r.db.toStores = .new)
    (run : runLive fmt (events.map .event) r = .ok () t) :
    (∀ front u, front <+: events → runLive fmt (front.map .event) r = .ok () u →
      u.db.toStores.InterestExact) ↔
    ∀ front indexed, front ++ [indexed] <+: events → indexed.event.KeepsInterest front := by
  have start : Exposed [] r.db.toStores := empty ▸ exposed_new
  have steps := foldl_good_iff (fun front (db : PerfDb) => Exposed front db.toStores)
    (fun db => db.toStores.InterestExact)
    (fun front _ (indexed : IndexedEvent) => indexed.event.KeepsInterest front) start
    (fun _ _ exposed => exposed.exact)
    (fun front indexed _ inside exposed keeps => exposed.event (wellFormed front indexed inside) keeps)
    (fun front indexed _ inside exposed fails exact =>
      fails ((wellFormed_exact_iff (wellFormed front indexed inside) exposed).mp exact))
  rw [← steps]
  constructor
  · intro always front inside
    obtain ⟨u, shorter⟩ := runLive_front (inside.map Feed.event) run
    have exact := always front u inside shorter
    rwa [runLive_events front shorter] at exact
  · intro always front u inside shorter
    rw [runLive_events front shorter]
    exact always front inside

/-- A long position is opened in market 0 and liquidated. -/
def liquidatedEvents : List IndexedEvent :=
  [⟨5, 1700000000, Vector.replicate 32 0, 0, 0, .positionOpened (Vector.replicate 32 7)
      (Vector.replicate 20 1) 0 true 100 10 1 (Vector.replicate 20 2) 10⟩,
    ⟨6, 1700000012, Vector.replicate 32 0, 0, 0, .liquidation (Vector.replicate 32 7)
      (Vector.replicate 20 1) 0 1 2 (Vector.replicate 20 4)⟩]

theorem liquidated_wellFormed : ∀ front indexed, front ++ [indexed] <+: liquidatedEvents →
    indexed.event.WellFormedAfter front := by
  refine forall_fronts (fun front (indexed : IndexedEvent) => indexed.event.WellFormedAfter front)
    fun i inside => ?_
  match i with
  | 0 =>
      refine ⟨by simp, ?_, by simp [liquidatedEvents], by simp [liquidatedEvents],
        by simp [liquidatedEvents]⟩
      rintro _ _ _ _ _ _ _ _ _ same
      obtain ⟨_, _, rfl, _⟩ := Event.positionOpened.inj same
      decide
  | 1 =>
      refine ⟨by simp [liquidatedEvents, Event.Opens], by simp [liquidatedEvents],
        by simp [liquidatedEvents], by simp [liquidatedEvents], ?_⟩
      rintro _ _ _ _ _ _ same
      obtain ⟨rfl, rfl, rfl, _⟩ := Event.liquidation.inj same
      exact ⟨⟨Vector.replicate 20 1, 0, true, 100⟩, by
        simp [liquidatedEvents, holding, Holding.step], rfl, rfl⟩

theorem open_interest_iff_liquidation :
    ∃ db opened t, PerfDb.open_ Bincode.formats .stored ⟨"data", "wal", 1024, .none⟩ .fresh =
        .ok db opened ∧
      runLive Bincode.format (liquidatedEvents.map .event) (opened.running db) = .ok () t ∧
      ((∀ front u, front <+: liquidatedEvents →
        runLive Bincode.format (front.map .event) (opened.running db) = .ok () u →
        u.db.toStores.InterestExact) ↔
      ∀ front indexed, front ++ [indexed] <+: liquidatedEvents →
        indexed.event.KeepsInterest front) := by
  obtain ⟨db, opened, run, stores, ready⟩ := PerfDb.open_blank Bincode.formats .stored
    ⟨"data", "wal", 1024, .none⟩ Disk.fresh_blank
  obtain ⟨t, live⟩ := runLive_returns Bincode.format (liquidatedEvents.map .event) ready
  exact ⟨db, opened, t, run, live, open_interest_iff Bincode.format liquidatedEvents
    liquidated_wellFormed _ t stores live⟩

/-- The interest of the liquidated position stays. -/
theorem liquidation_keeps_interest :
    ∃ db opened t, PerfDb.open_ Bincode.formats .stored ⟨"data", "wal", 1024, .none⟩ .fresh =
        .ok db opened ∧
      (∀ front indexed, front ++ [indexed] <+: liquidatedEvents →
        indexed.event.WellFormedAfter front) ∧
      runLive Bincode.format (liquidatedEvents.map .event) (opened.running db) = .ok () t ∧
      ¬ t.db.toStores.InterestExact := by
  obtain ⟨db, opened, run, stores, ready⟩ := PerfDb.open_blank Bincode.formats .stored
    ⟨"data", "wal", 1024, .none⟩ Disk.fresh_blank
  obtain ⟨t, live⟩ := runLive_returns Bincode.format (liquidatedEvents.map .event) ready
  refine ⟨db, opened, t, run, liquidated_wellFormed, live, ?_⟩
  have start : Exposed [] (opened.running db).db.toStores := stores ▸ exposed_new
  have first := start.event (liquidated_wellFormed [] _ ⟨_, rfl⟩) trivial
  rw [runLive_events _ live]
  intro exact
  have empty := (wellFormed_exact_iff (liquidated_wellFormed [_] _ ⟨[], rfl⟩) first).mp exact
  exact absurd (empty ⟨Vector.replicate 20 1, 0, true, 100⟩ (by simp [holding, Holding.step]))
    (by decide)

end Perfdb
