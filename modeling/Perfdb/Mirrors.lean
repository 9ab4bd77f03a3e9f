import Mathlib
import Perfdb.FaultyCalls
import Perfdb.IndependentEvents
import Perfdb.OpenedStores
import Perfdb.Reorderings

set_option autoImplicit false

namespace Perfdb

/-- What one slot shows after a change of another or of itself. -/
theorem elim_modifySlot {α β : Type} {n : Nat} (slots : Vector α n) (index other : Nat)
    (update : α → α) (absent : β) (view : α → β) :
    (modifySlot slots index update)[other]?.elim absent view =
      if index = other then slots[other]?.elim absent fun slot => view (update slot)
      else slots[other]?.elim absent view := by
  rw [getElem?_modifySlot]
  split
  · cases slots[other]? <;> rfl
  · rfl

namespace MarketStateTable

variable (table : MarketStateTable) (marketId : MarketId)

/-- The latest price and its time. -/
def quote : F64 × UInt64 := (table.latestPrice marketId, table.lastUpdateNs marketId)

def rates : FixedI128 × FixedI128 := (table.fundingRate marketId, table.fundingRate24h marketId)

theorem quote_eq : table.quote marketId = (table.slots[marketId.toNat]?).elim (F64.zero, 0)
    fun slot => (⟨slot.latestPriceBits⟩, slot.lastUpdateNs) := by
  simp only [quote, latestPrice, lastUpdateNs]
  cases table.slots[marketId.toNat]? <;> rfl

theorem rates_eq : table.rates marketId = (table.slots[marketId.toNat]?).elim (0, 0)
    fun slot => (slot.inner.fundingRatePerSecond, slot.inner.fundingRate24h) := by
  simp only [rates, fundingRate, fundingRate24h]
  cases table.slots[marketId.toNat]? <;> rfl

theorem change_quote (change : Option (MarketId × MarketChange)) :
    (table.change change).quote marketId = table.quote marketId := by
  cases change with
  | none => rfl
  | some named =>
      rw [quote_eq, quote_eq, MarketStateTable.change, withInner, withSlot, elim_modifySlot, ite_self]

theorem change_rates {change : Option (MarketId × MarketChange)}
    (quiet : ∀ named ∈ change, named.2.isFunding = false) :
    (table.change change).rates marketId = table.rates marketId := by
  cases change with
  | none => rfl
  | some named =>
      obtain ⟨market, change⟩ := named
      have other := quiet _ rfl
      rw [rates_eq, rates_eq, MarketStateTable.change, withInner, withSlot, elim_modifySlot]
      cases change with
      | funding => cases other
      | _ => exact ite_self _

theorem setPrice_quote (market : MarketId) (price : F64) (timestampNs : UInt64)
    (inside : marketId.toNat < marketCount) :
    (table.setPrice market price timestampNs).quote marketId =
      if market = marketId then (price, timestampNs) else table.quote marketId := by
  rw [quote_eq, quote_eq, setPrice, withSlot, elim_modifySlot,
    Vector.getElem?_eq_getElem inside]
  simp only [Option.elim_some, UInt16.toNat_inj]

theorem setPrice_rates (market : MarketId) (price : F64) (timestampNs : UInt64) :
    (table.setPrice market price timestampNs).rates marketId = table.rates marketId := by
  rw [rates_eq, rates_eq, setPrice, withSlot, elim_modifySlot, ite_self]

theorem setFundingRate_rates (market : MarketId) (ratePerSecond rate24h : FixedI128)
    (inside : marketId.toNat < marketCount) :
    (table.setFundingRate market ratePerSecond rate24h).rates marketId =
      if market = marketId then (ratePerSecond, rate24h) else table.rates marketId := by
  rw [rates_eq, rates_eq, setFundingRate, withInner, withSlot, elim_modifySlot,
    Vector.getElem?_eq_getElem inside]
  simp only [Option.elim_some, UInt16.toNat_inj]

end MarketStateTable

/-- What a subscriber keeps of the messages, and the positions that were reported
liquidated. -/
structure Mirror where
  orders : Table Hash Order
  balances : BalanceCache
  positions : Table Hash Position
  liquidated : List Hash
  prices : MarketId → F64 × UInt64
  funding : MarketId → FixedI128 × FixedI128

/-- An entry of the stores that messages are about. -/
inductive Topic where
  | order (orderId : Hash)
  | balance (user token : Address)
  | position (positionId : Hash)
  | price (marketId : MarketId)
  | funding (marketId : MarketId)

namespace Mirror

/-- A message of a channel replaces the entry it is about. -/
def receive (mirror : Mirror) (sent : Channel × PubSubMessage) : Mirror :=
  match sent with
  | (.prices, .priceUpdate marketId price timestampNs) =>
      { mirror with prices := Function.update mirror.prices marketId (price, timestampNs) }
  | (.positions, .positionUpdate position) =>
      { mirror with positions := mirror.positions.insert position.positionId position }
  | (.orders, .orderUpdate order) =>
      { mirror with orders := mirror.orders.insert order.orderId order }
  | (.liquidations, .liquidationEvent positionId _ _ _ _) =>
      { mirror with liquidated := mirror.liquidated ++ [positionId] }
  | (.funding, .fundingUpdate marketId ratePerSecond rate24h) =>
      { mirror with funding := Function.update mirror.funding marketId (ratePerSecond, rate24h) }
  | (.balances, .balanceUpdate balance) =>
      { mirror with balances := mirror.balances.set balance }
  | _ => mirror

/-- The subscriber is up to date on an entry; of a position that was liquidated it may know no
more than that. -/
def Knows (mirror : Mirror) (stores : Stores) : Topic → Prop
  | .order orderId => mirror.orders[orderId]? = stores.orders.get orderId
  | .balance user token => mirror.balances.get user token = stores.balances.get user token
  | .position positionId =>
      mirror.positions[positionId]? = stores.positions.get positionId ∨
        positionId ∈ mirror.liquidated ∧
          ∃ p, stores.positions.get positionId = some p ∧ p.status = .liquidated
  | .price marketId => marketId.toNat < marketCount →
      mirror.prices marketId = stores.marketState.quote marketId
  | .funding marketId => marketId.toNat < marketCount →
      mirror.funding marketId = stores.marketState.rates marketId

end Mirror

/-- The entry a message tells the latest of. -/
def topicOf : Channel × PubSubMessage → Option Topic
  | (.prices, .priceUpdate marketId _ _) => some (.price marketId)
  | (.positions, .positionUpdate position) => some (.position position.positionId)
  | (.orders, .orderUpdate order) => some (.order order.orderId)
  | (.funding, .fundingUpdate marketId _ _) => some (.funding marketId)
  | (.balances, .balanceUpdate balance) => some (.balance balance.userAddress balance.token)
  | _ => none

def Event.liquidates : Event → Option Hash
  | .liquidation positionId _ _ _ _ _ => some positionId
  | _ => none

section Received

variable (mirror : Mirror) (indexed : IndexedEvent) (before : Stores)

def Mirror.hear (message : Option (Channel × PubSubMessage)) : Mirror :=
  message.elim mirror mirror.receive

theorem Mirror.hear_order (left : Option Order) :
    mirror.hear (left.map fun order => (.orders, .orderUpdate order)) = { mirror with
      orders := left.elim mirror.orders fun order => mirror.orders.insert order.orderId order } := by
  cases left <;> rfl

theorem Mirror.hear_position (left : Option Position) :
    mirror.hear (left.map fun p => (.positions, .positionUpdate p)) = { mirror with
      positions := left.elim mirror.positions fun p =>
        mirror.positions.insert p.positionId p } := by
  cases left <;> rfl

theorem Mirror.hear_balance (left : Option Balance) :
    mirror.hear (left.map fun balance => (.balances, .balanceUpdate balance)) = { mirror with
      balances := left.elim mirror.balances mirror.balances.set } := by
  cases left <;> rfl

/-- The tables take over what the event leaves in those of the stores, but for a position that
is liquidated. -/
structure Mirror.Takes (later : Mirror) : Prop where
  orders : later.orders =
    (before.orders.orders.leaves indexed.orderChange).elim mirror.orders fun order =>
      mirror.orders.insert order.orderId order
  balances : later.balances.balances =
    (before.balances.balances.leaves indexed.balanceChange).elim mirror.balances.balances
      fun balance => mirror.balances.balances.insert (balance.userAddress, balance.token) balance
  positions : indexed.event.liquidates = none → later.positions =
    (before.positions.positions.leaves indexed.positionChange).elim mirror.positions fun p =>
      mirror.positions.insert p.positionId p
  kept : indexed.event.liquidates ≠ none → later.positions = mirror.positions
  liquidated : later.liquidated = mirror.liquidated ++ indexed.event.liquidates.toList
  prices : later.prices = mirror.prices
  funding : indexed.event.fundedMarket = none → later.funding = mirror.funding

theorem Mirror.hear_takes : mirror.Takes indexed before (mirror.hear (indexed.message before)) := by
  obtain ⟨blockNumber, blockTimestamp, txHash, txIndex, logIndex, event⟩ := indexed
  cases event with
  | orderPlaced | orderExecuted | orderCancelled =>
      simp only [IndexedEvent.message]
      rw [Mirror.hear_order]
      exact ⟨rfl, rfl, fun _ => rfl, fun liquidates => absurd rfl liquidates,
        (List.append_nil _).symm, rfl, fun _ => rfl⟩
  | positionOpened | positionClosed | positionModified =>
      simp only [IndexedEvent.message]
      rw [Mirror.hear_position]
      exact ⟨rfl, rfl, fun _ => rfl, fun liquidates => absurd rfl liquidates,
        (List.append_nil _).symm, rfl, fun _ => rfl⟩
  | collateralDeposited user token | collateralWithdrawn user token =>
      simp only [IndexedEvent.message]
      rw [Mirror.hear_balance, IndexedEvent.onBalances_eq, BalanceCache.get]
      refine ⟨rfl, ?_, fun _ => rfl, fun liquidates => absurd rfl liquidates,
        (List.append_nil _).symm, rfl, fun _ => rfl⟩
      simp only [IndexedEvent.balanceChange, Table.getElem?_change, if_true, Table.leaves,
        Option.bind_some, Option.elim_some]
      rfl
  | liquidation =>
      refine ⟨rfl, rfl, fun alive => ?_, fun _ => rfl, rfl, rfl, fun _ => rfl⟩
      cases alive
  | fundingRateUpdated =>
      refine ⟨rfl, rfl, fun _ => rfl, fun liquidates => absurd rfl liquidates,
        (List.append_nil _).symm, rfl, fun unfunded => ?_⟩
      cases unfunded
  | _ =>
      exact ⟨rfl, rfl, fun _ => rfl, fun liquidates => absurd rfl liquidates,
        (List.append_nil _).symm, rfl, fun _ => rfl⟩

/-- What a topic was told of by an event is what the event leaves there. -/
def Topic.LeftBy : Topic → Prop
  | .order orderId => ∃ order ∈ before.orders.orders.leaves indexed.orderChange,
      order.orderId = orderId
  | .balance user token => (user, token) ∈ indexed.balanceChange.map Prod.fst
  | .position positionId => indexed.event.liquidates = none ∧
      ∃ p ∈ before.positions.positions.leaves indexed.positionChange, p.positionId = positionId
  | .price _ => False
  | .funding marketId => indexed.event.fundedMarket = some marketId

theorem message_topic {topic : Topic} {message : Channel × PubSubMessage}
    (sent : indexed.message before = some message) (about : topicOf message = some topic) :
    topic.LeftBy indexed before := by
  obtain ⟨blockNumber, blockTimestamp, txHash, txIndex, logIndex, event⟩ := indexed
  cases event with
  | orderPlaced | orderExecuted | orderCancelled =>
      simp only [IndexedEvent.message] at sent
      obtain ⟨order, left, rfl⟩ := Option.map_eq_some_iff.mp sent
      obtain rfl := Option.some.inj about
      exact ⟨order, left, rfl⟩
  | positionOpened | positionClosed | positionModified =>
      simp only [IndexedEvent.message] at sent
      obtain ⟨p, left, rfl⟩ := Option.map_eq_some_iff.mp sent
      obtain rfl := Option.some.inj about
      exact ⟨rfl, p, left, rfl⟩
  | collateralDeposited user token | collateralWithdrawn user token =>
      simp only [IndexedEvent.message] at sent
      obtain ⟨balance, left, rfl⟩ := Option.map_eq_some_iff.mp sent
      rw [IndexedEvent.onBalances_eq, BalanceCache.get] at left
      simp only [IndexedEvent.balanceChange, Table.getElem?_change, if_true,
        Option.some.injEq] at left
      obtain rfl := Option.some.inj about
      subst left
      rfl
  | fundingRateUpdated =>
      obtain rfl := Option.some.inj sent
      obtain rfl := Option.some.inj about
      rfl
  | liquidation =>
      obtain rfl := Option.some.inj sent
      cases about
  | _ => cases sent

end Received

section Step

variable {mirror : Mirror} {indexed : IndexedEvent} {db : PerfDb}

theorem orders_stay : ∀ named ∈ indexed.orderChange, ∀ known : Option Order,
    named.2 known = none → known = none := by
  obtain ⟨blockNumber, blockTimestamp, txHash, txIndex, logIndex, event⟩ := indexed
  cases event with
  | orderPlaced =>
      rintro named ⟨⟩ known gone
      cases gone
  | orderExecuted | orderCancelled =>
      rintro named ⟨⟩ known gone
      exact Option.map_eq_none_iff.mp gone
  | _ => exact nofun

theorem positions_stay : ∀ named ∈ indexed.positionChange, ∀ known : Option Position,
    named.2 known = none → known = none := by
  obtain ⟨blockNumber, blockTimestamp, txHash, txIndex, logIndex, event⟩ := indexed
  cases event with
  | positionOpened =>
      rintro named ⟨⟩ known gone
      cases gone
  | positionClosed | positionModified | liquidation =>
      rintro named ⟨⟩ known gone
      exact Option.map_eq_none_iff.mp gone
  | _ => exact nofun

theorem balanceChange_leaves : ∀ named ∈ indexed.balanceChange, ∀ known : Option Balance,
    ∃ balance, named.2 known = some balance ∧
      (balance.userAddress, balance.token) = named.1 := by
  obtain ⟨blockNumber, blockTimestamp, txHash, txIndex, logIndex, event⟩ := indexed
  cases event with
  | collateralDeposited | collateralWithdrawn =>
      rintro named ⟨⟩ known
      exact ⟨_, rfl, rfl⟩
  | _ => exact nofun

theorem Mirror.Knows.order (keyed : db.toStores.Keyed) {orderId : Hash}
    (known : mirror.Knows db.toStores (.order orderId) ∨
      Topic.LeftBy indexed db.toStores (.order orderId)) :
    (mirror.hear (indexed.message db.toStores)).Knows (db.applyEvent indexed).toStores
      (.order orderId) := by
  have changed : (db.applyEvent indexed).orders.orders =
      db.orders.orders.change indexed.orderChange := by
    rw [(applyEvent_effects indexed db).orders]
    exact (indexed.onOrders_change db.orders).1
  have own := (keyed.event indexed).orders
  rw [changed] at own
  change (mirror.hear (indexed.message db.toStores)).orders[orderId]? =
    (db.applyEvent indexed).orders.orders[orderId]?
  rw [(mirror.hear_takes indexed db.toStores).orders, changed]
  exact Table.copy_change own (fun named is => orders_stay named is _) known

theorem Mirror.Knows.balance (keyed : db.toStores.Keyed) {user token : Address}
    (known : mirror.Knows db.toStores (.balance user token) ∨
      Topic.LeftBy indexed db.toStores (.balance user token)) :
    (mirror.hear (indexed.message db.toStores)).Knows (db.applyEvent indexed).toStores
      (.balance user token) := by
  have changed : (db.applyEvent indexed).balances.balances =
      db.balances.balances.change indexed.balanceChange := by
    rw [(applyEvent_effects indexed db).balances, indexed.onBalances_eq]
  have own := (keyed.event indexed).balances
  rw [changed] at own
  change (mirror.hear (indexed.message db.toStores)).balances.balances[(user, token)]? =
    (db.applyEvent indexed).balances.balances[(user, token)]?
  rw [(mirror.hear_takes indexed db.toStores).balances, changed]
  refine Table.copy_change own (fun named is gone => ?_) (known.imp_right fun named => ?_)
  · obtain ⟨balance, left, _⟩ := balanceChange_leaves named is db.balances.balances[named.1]?
    rw [left] at gone
    cases gone
  · obtain ⟨change, is_change, is_key⟩ := Option.map_eq_some_iff.mp named
    obtain ⟨balance, left, under⟩ :=
      balanceChange_leaves change is_change db.balances.balances[change.1]?
    exact ⟨balance, by rw [is_change]; exact left, under.trans is_key⟩

theorem liquidates_change {positionId : Hash}
    (liquidates : indexed.event.liquidates = some positionId) :
    ∃ f : Position → Position, indexed.positionChange = some (positionId, Option.map f) ∧
      ∀ p, (f p).status = .liquidated := by
  obtain ⟨blockNumber, blockTimestamp, txHash, txIndex, logIndex, event⟩ := indexed
  cases event with
  | liquidation =>
      obtain rfl := Option.some.inj liquidates
      exact ⟨_, rfl, fun _ => rfl⟩
  | _ => cases liquidates

theorem Mirror.Knows.position (keyed : db.toStores.Keyed) {positionId : Hash}
    (known : mirror.Knows db.toStores (.position positionId) ∨
      Topic.LeftBy indexed db.toStores (.position positionId)) :
    (mirror.hear (indexed.message db.toStores)).Knows (db.applyEvent indexed).toStores
      (.position positionId) := by
  have changed : (db.applyEvent indexed).positions.positions =
      db.positions.positions.change indexed.positionChange := by
    rw [applyEvent_positions, indexed.onPositions_change]
  have after := mirror.hear_takes indexed db.toStores
  change (mirror.hear (indexed.message db.toStores)).positions[positionId]? =
      (db.applyEvent indexed).positions.positions[positionId]? ∨
    positionId ∈ (mirror.hear (indexed.message db.toStores)).liquidated ∧
      ∃ p, (db.applyEvent indexed).positions.positions[positionId]? = some p ∧
        p.status = .liquidated
  rw [changed, after.liquidated]
  cases liquidates : indexed.event.liquidates with
  | some liquidated =>
      obtain ⟨f, is_change, marks⟩ := liquidates_change liquidates
      have before := known.resolve_right fun left => by
        obtain ⟨never, _⟩ := left
        rw [liquidates] at never
        cases never
      rw [after.kept (by simp [liquidates]), is_change, Table.getElem?_change]
      by_cases here : liquidated = positionId
      · subst here
        rw [if_pos rfl]
        cases found : db.positions.positions[liquidated]? with
        | none =>
            refine Or.inl (before.resolve_right ?_ |>.trans found)
            rintro ⟨_, p, stored, _⟩
            rw [PositionTable.get, found] at stored
            cases stored
        | some p =>
            refine Or.inr ⟨List.mem_append_right _ (List.mem_singleton_self _), f p, rfl, marks p⟩
      · rw [if_neg here]
        rcases before with same | ⟨reported, stored⟩
        · exact Or.inl same
        · exact Or.inr ⟨List.mem_append_left _ reported, stored⟩
  | none =>
      have own := (keyed.event indexed).positions
      rw [changed] at own
      rw [after.positions liquidates]
      have copied (same : mirror.positions[positionId]? = db.positions.positions[positionId]? ∨
          ∃ p ∈ db.positions.positions.leaves indexed.positionChange, p.positionId = positionId) :=
        Table.copy_change own (fun named is => positions_stay named is _) same
      rcases known with (same | ⟨reported, stored⟩) | ⟨_, left⟩
      · exact Or.inl (copied (Or.inl same))
      · by_cases left : ∃ p ∈ db.positions.positions.leaves indexed.positionChange,
          p.positionId = positionId
        · exact Or.inl (copied (Or.inr left))
        · -- the event leaves the liquidated position alone
          refine Or.inr ⟨List.mem_append_left _ reported, ?_⟩
          obtain ⟨p, found, status⟩ := stored
          refine ⟨p, ?_, status⟩
          cases change : indexed.positionChange with
          | none => exact found
          | some named =>
              rw [change] at left own
              rw [Table.getElem?_change]
              split
              · rename_i here
                subst here
                cases now : named.2 db.positions.positions[named.1]? with
                | none =>
                    have gone := positions_stay named change _ now
                    rw [PositionTable.get, gone] at found
                    cases found
                | some q =>
                    refine absurd ⟨q, now, own named.1 q ?_⟩ left
                    rw [Table.getElem?_change, if_pos rfl, now]
              · exact found
      · exact Or.inl (copied (Or.inr left))

theorem Mirror.Knows.price {marketId : MarketId}
    (known : mirror.Knows db.toStores (.price marketId)) :
    (mirror.hear (indexed.message db.toStores)).Knows (db.applyEvent indexed).toStores
      (.price marketId) := by
  intro inside
  rw [(mirror.hear_takes indexed db.toStores).prices, applyEvent_markets,
    MarketStateTable.change_quote]
  exact known inside

theorem Mirror.Knows.funding {marketId : MarketId}
    (known : mirror.Knows db.toStores (.funding marketId) ∨
      Topic.LeftBy indexed db.toStores (.funding marketId)) :
    (mirror.hear (indexed.message db.toStores)).Knows (db.applyEvent indexed).toStores
      (.funding marketId) := by
  intro inside
  cases funded : indexed.event.fundedMarket with
  | none =>
      have before := (known.resolve_right fun left => by
        change indexed.event.fundedMarket = some marketId at left
        rw [funded] at left
        cases left) inside
      rw [(mirror.hear_takes indexed db.toStores).funding funded, before, applyEvent_markets,
        MarketStateTable.change_rates]
      intro named is
      by_contra funds
      have market := indexed.marketChange_named db.positions is (Bool.not_eq_false _ ▸ funds)
      rw [funded] at market
      cases market
  | some market =>
      obtain ⟨blockNumber, blockTimestamp, txHash, txIndex, logIndex, event⟩ := indexed
      cases event with
      | fundingRateUpdated market newRatePerSecond fundingRate24h =>
          change Function.update mirror.funding market (newRatePerSecond, fundingRate24h) marketId =
            (db.marketState.setFundingRate market newRatePerSecond fundingRate24h).rates marketId
          rw [MarketStateTable.setFundingRate_rates _ _ _ _ _ inside]
          by_cases here : market = marketId
          · rw [if_pos here, here, Function.update_self]
          · rw [if_neg here, Function.update_of_ne (Ne.symm here)]
            refine known.resolve_right (fun left => here ?_) inside
            exact Option.some.inj left
      | _ => cases funded

/-- Events keep what is known, and tell the latest of what their messages are about. -/
theorem Mirror.Knows.event (keyed : db.toStores.Keyed) {topic : Topic}
    (known : mirror.Knows db.toStores topic ∨
      ∃ message ∈ indexed.message db.toStores, topicOf message = some topic) :
    (mirror.hear (indexed.message db.toStores)).Knows (db.applyEvent indexed).toStores topic := by
  have told : mirror.Knows db.toStores topic ∨ topic.LeftBy indexed db.toStores := by
    refine known.imp_right ?_
    rintro ⟨message, sent, about⟩
    exact message_topic indexed db.toStores sent about
  cases topic with
  | order => exact Mirror.Knows.order keyed told
  | balance => exact Mirror.Knows.balance keyed told
  | position => exact Mirror.Knows.position keyed told
  | price => exact Mirror.Knows.price (told.resolve_right id)
  | funding => exact Mirror.Knows.funding told

theorem PerfDb.setTickPrice_quote (db : PerfDb) {tick : PriceTick}
    (known : tick.marketId.toNat < marketCount) :
    (db.setTickPrice tick).marketState.quote tick.marketId = (tick.price, tick.timestampNs) :=
  (MarketStateTable.setPrice_quote _ _ _ _ _ known).trans (if_pos rfl)

theorem Mirror.Knows.priced (tick : PriceTick) {topic : Topic}
    (apart : topic ≠ .price tick.marketId) (known : mirror.Knows db.toStores topic) :
    mirror.Knows (db.setTickPrice tick).toStores topic := by
  cases topic with
  | order | balance | position => exact known
  | price marketId =>
      intro inside
      change _ = (db.marketState.setPrice tick.marketId tick.price tick.timestampNs).quote marketId
      rw [MarketStateTable.setPrice_quote _ _ _ _ _ inside,
        if_neg fun here => apart (congrArg Topic.price here.symm)]
      exact known inside
  | funding marketId =>
      intro inside
      have rates := db.marketState.setPrice_rates marketId tick.marketId tick.price tick.timestampNs
      exact (known inside).trans rates.symm

/-- The message of a tick tells the price that it sets. -/
theorem Mirror.Knows.tick (tick : PriceTick) {topic : Topic}
    (known : mirror.Knows db.toStores topic ∨ topic = .price tick.marketId) :
    (mirror.receive (.prices, .priceUpdate tick.marketId tick.price tick.timestampNs)).Knows
      (db.setTickPrice tick).toStores topic := by
  by_cases here : topic = .price tick.marketId
  · subst here
    intro inside
    change Function.update mirror.prices tick.marketId (tick.price, tick.timestampNs)
        tick.marketId = (db.setTickPrice tick).marketState.quote tick.marketId
    rw [db.setTickPrice_quote inside, Function.update_self]
  · have kept := (known.resolve_right here).priced tick here
    cases topic with
    | price marketId =>
        intro inside
        rw [← kept inside]
        exact Function.update_of_ne (fun same => here (congrArg Topic.price same)) _ _
    | _ => exact kept

end Step

/-- A tick set the price of the market without telling it, and no message has told that price
since. -/
def Untold (fmt : Wal.Format) (r : Running) (calls : List DiskCall) : Topic → Prop
  | .price marketId => ∃ front sample faults rest, calls = front ++ .tick sample faults :: rest ∧
      sample.marketId = marketId ∧
      (afterDiskCalls fmt front r).Withholds fmt sample faults ∧
      ∀ message ∈ sentBy fmt rest (afterDiskCalls fmt (front ++ [.tick sample faults]) r),
        topicOf message ≠ some (.price marketId)
  | _ => False

section Calls

variable {fmt : Wal.Format} {r : Running}

theorem Untold.cons {call : DiskCall} {calls : List DiskCall} {topic : Topic}
    (untold : Untold fmt (call.after fmt r) calls topic) : Untold fmt r (call :: calls) topic := by
  cases topic with
  | price marketId =>
      obtain ⟨front, sample, faults, rest, rfl, market, withholds, silent⟩ := untold
      exact ⟨call :: front, sample, faults, rest, rfl, market, withholds, silent⟩
  | _ => exact untold

section Witnesses

variable (fmt : Wal.Format)

/-- A tick that withholds its price sets it and sends nothing. -/
theorem DiskCall.withheld {sample : PriceTick} {faults : TickFaults}
    (withholds : r.Withholds fmt sample faults) :
    (DiskCall.after fmt r (.tick sample faults)).db.toStores =
        (r.db.setTickPrice sample).toStores ∧
      sentBy fmt [.tick sample faults] r = [] := by
  rcases PerfDb.ingestTickOn_outcome fmt r sample faults with ⟨_, stores, sent⟩ | ⟨never, _⟩
  · exact ⟨stores, DiskCall.sent_eq _ (sent.trans (List.append_nil _).symm)⟩
  · exact (never withholds).elim

/-- A tick of a known market on a disk that takes everything is published. -/
theorem DiskCall.published (ready : r.Ready) {sample : PriceTick}
    (known : sample.marketId.toNat < marketCount) :
    let calm := DiskCall.tick sample ⟨none, fun _ => none⟩
    (calm.after fmt r).db.toStores = (r.db.setTickPrice sample).toStores ∧
      sentBy fmt [calm] r =
        [(.prices, .priceUpdate sample.marketId sample.price sample.timestampNs)] := by
  obtain ⟨s, logged, _⟩ := ready.logs fmt
    (.priceTick sample.timestampNs sample.marketId sample.price)
  obtain ⟨later, run, _, _, ticked⟩ := PerfDb.ingestTick_of_log logged known
  have after : DiskCall.after fmt r (.tick sample ⟨none, fun _ => none⟩) = later := by
    rw [DiskCall.after, PerfDb.ingestTickOn_none, PerfDb.ingestTickFaulty_none, run]
    rfl
  exact ⟨after ▸ ticked.stores, DiskCall.sent_eq _ (after ▸ PerfDb.ingestTick_sent run)⟩

/-- An event whose log is open is processed and its message sent. -/
theorem DiskCall.processed (ready : r.Ready) (indexed : IndexedEvent) :
    let call := DiskCall.event indexed
    (call.after fmt r).Ready ∧
      sentBy fmt [call] r = (indexed.message r.db.toStores).toList := by
  obtain ⟨s, logged, keep⟩ := ready.logs fmt (.indexedEvent indexed)
  obtain ⟨later, run, log, snapshots, _⟩ := PerfDb.processEvent_of_log logged
  have after : DiskCall.after fmt r (.event indexed) = later := by
    rw [DiskCall.after, run]
    rfl
  refine ⟨after ▸ keep later log snapshots, DiskCall.sent_eq _ ?_⟩
  rw [after]
  obtain ⟨t, _, rfl⟩ := PerfDb.processEvent_ok run
  exact applyEvent_sent indexed (r.setWalState t).db

/-- The second of two ticks a second apart withholds its price when the disk refuses the
candle it closes. -/
theorem nextTick_withheld (ready : r.Ready) (store : r.db.candleStore = .new)
    (builder : r.db.candleBuilder = .new) :
    let before := DiskCall.after fmt r (.tick firstTick ⟨none, fun _ => none⟩)
    before.Ready ∧ before.Withholds fmt nextTick ⟨none, refusesSecond⟩ := by
  have tracks : (r.ingestFaulty fmt ⟨firstTick, fun _ => none⟩).Tracks
      [⟨firstTick, fun _ => none⟩] :=
    Running.tracks_run fmt ready store builder (by decide) (by unfold Chronological; decide)
  obtain ⟨calm, _, partly, _⟩ := tracks
  obtain ⟨s, logged, _⟩ := calm.logs fmt
    (.priceTick nextTick.timestampNs nextTick.marketId nextTick.price)
  rw [DiskCall.after, PerfDb.ingestTickOn_none]
  refine ⟨calm, ⟨s, logged⟩, by decide, rfl, ?_⟩
  by_contra accepted
  have harmless : FaultyTick.Harmless ⟨nextTick, refusesSecond⟩ [firstTick] :=
    (partly.harmless_iff (by decide)).mpr fun output member refused =>
      accepted ⟨output, member, refused⟩
  cases harmless .sec1 firstTick rfl (by decide)

/-- Such a tick sends nothing, and who knew the price before it does not know it behind it. -/
theorem withheld_price_unknown :
    ∃ db opened, PerfDb.open_ Bincode.formats .stored ⟨"data", "wal", 1024, .none⟩ .fresh =
        .ok db opened ∧
      let before := afterDiskCalls Bincode.format [.tick firstTick ⟨none, fun _ => none⟩]
        (opened.running db)
      let late : List DiskCall := [.tick nextTick ⟨none, refusesSecond⟩]
      sentBy Bincode.format late before = [] ∧
        ∀ mirror : Mirror, mirror.Knows before.db.toStores (.price 0) →
          ¬ mirror.Knows (afterDiskCalls Bincode.format late before).db.toStores (.price 0) := by
  obtain ⟨db, opened, run, _, _, store, builder, _, logged⟩ :=
    PerfDb.open_returns .stored ⟨"data", "wal", 1024, .none⟩
      (Disk.fresh_blank.stands Bincode.formats) (fun snap some => by contradiction)
  rw [Disk.fresh_blank.candles] at store builder
  obtain ⟨_, withholds⟩ := nextTick_withheld Bincode.format logged.ready store
    (builder.trans seedBuilder_new)
  have known : firstTick.marketId.toNat < marketCount := by decide
  obtain ⟨first, _⟩ := DiskCall.published Bincode.format logged.ready known
  obtain ⟨second, silent⟩ := DiskCall.withheld Bincode.format withholds
  refine ⟨db, opened, run, silent, fun mirror knew knows => ?_⟩
  have old := (knew known).trans ((congrArg (fun (stores : Stores) =>
    stores.marketState.quote 0) first).trans (PerfDb.setTickPrice_quote _ known))
  have new := (knows known).trans ((congrArg (fun (stores : Stores) =>
    stores.marketState.quote 0) second).trans (PerfDb.setTickPrice_quote _ known))
  exact absurd (congrArg Prod.snd (old.symm.trans new)) (by decide)

section Late

variable (ready : r.Ready) (withholds : r.Withholds fmt nextTick ⟨none, refusesSecond⟩)
  (empty : r.db.balances = .new)

include ready withholds empty

end Late

end Witnesses

end Calls

end Perfdb
