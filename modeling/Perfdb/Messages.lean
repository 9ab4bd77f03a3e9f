import Mathlib
import Perfdb.Collateral
import Perfdb.EventChanges

set_option autoImplicit false

namespace Perfdb

def IndexedEvent.message (indexed : IndexedEvent) (before : Stores) :
    Option (Channel × PubSubMessage) :=
  match indexed.event with
  | .positionOpened .. | .positionClosed .. | .positionModified .. =>
      (before.positions.positions.leaves indexed.positionChange).map fun p =>
        (.positions, .positionUpdate p)
  | .orderPlaced .. | .orderExecuted .. | .orderCancelled .. =>
      (before.orders.orders.leaves indexed.orderChange).map fun order =>
        (.orders, .orderUpdate order)
  | .liquidation positionId user marketId liquidationPrice penalty _ =>
      some (.liquidations, .liquidationEvent positionId user marketId liquidationPrice penalty)
  | .fundingRateUpdated marketId newRatePerSecond fundingRate24h =>
      some (.funding, .fundingUpdate marketId newRatePerSecond fundingRate24h)
  | .collateralDeposited user token _ | .collateralWithdrawn user token _ =>
      ((indexed.onBalances before.balances).get user token).map fun balance =>
        (.balances, .balanceUpdate balance)
  | _ => none

section Events

variable (indexed : IndexedEvent) (db : PerfDb)

theorem publishFound_sent {α : Type} (channel : Channel) (message : α → PubSubMessage)
    (found : Option α) : (db.publishFound channel message found).pubsub.sent =
      db.pubsub.sent ++ (found.map fun value => (channel, message value)).toList := by
  cases found with
  | none => exact (List.append_nil _).symm
  | some value => rfl

theorem finish_left (table : OrderTable) (orderId : Hash) (f : Order → Order) :
    (table.finish orderId f).1 = table.orders.leaves (some (orderId, Option.map f)) := by
  simp only [OrderTable.finish, Table.leaves, Option.bind_some]
  cases table.orders[orderId]? <;> rfl

theorem applyEvent_sent : (db.applyEvent indexed).pubsub.sent =
    db.pubsub.sent ++ (indexed.message db.toStores).toList := by
  obtain ⟨blockNumber, blockTimestamp, txHash, txIndex, logIndex, event⟩ := indexed
  cases event with
  | positionClosed positionId user market closedSizeUsd exitPrice realizedPnl isFullClose =>
      simp only [PerfDb.applyEvent, PositionTable.get_update, if_true, IndexedEvent.message,
        Table.leaves, IndexedEvent.positionChange, Option.bind_some]
      rw [PositionTable.get]
      cases db.positions.positions[positionId]? with
      | none => exact (List.append_nil _).symm
      | some p => rfl
  | positionModified positionId =>
      simp only [PerfDb.applyEvent, publishFound_sent, PositionTable.get_update, if_true]
      rfl
  | orderExecuted orderId positionId executionPrice =>
      simp only [PerfDb.applyEvent, publishFound_sent, OrderTable.execute, finish_left]
      rfl
  | orderCancelled orderId =>
      simp only [PerfDb.applyEvent, publishFound_sent, OrderTable.cancel, finish_left]
      rfl
  | collateralDeposited | collateralWithdrawn =>
      simp only [PerfDb.applyEvent, publishFound_sent]
      rfl
  | positionOpened | orderPlaced | liquidation | fundingRateUpdated => rfl
  | _ => exact (List.append_nil _).symm

end Events

section Calls

variable {fmt : Wal.Format} {r : Running}

/-- A tick that was taken has been published, once. -/
theorem PerfDb.ingestTick_sent {tick : PriceTick} {outputs : List CandleOutput} {later : Running}
    (run : ingestTick fmt tick r = .ok outputs later) : later.db.pubsub.sent =
      r.db.pubsub.sent ++ [(.prices, .priceUpdate tick.marketId tick.price tick.timestampNs)] := by
  obtain ⟨_, _, logging, rest⟩ := bind_ok run
  obtain ⟨s, _, rfl⟩ := onWal_ok logging
  obtain ⟨_, stored, storing, rest⟩ := bind_ok rest
  have same : stored.db.pubsub = r.db.pubsub := by
    simp only [tryDb, appendTick] at storing
    cases kept : (r.setWalState s).db.tickStore.append tick with
    | error reason =>
        rw [kept] at storing
        cases storing
    | ok ticks =>
        rw [kept] at storing
        obtain ⟨_, rfl⟩ := EStateM.Result.ok.inj storing
        rfl
  obtain ⟨_, _, _, _, valid, _⟩ := ingestTick_ok run
  obtain ⟨_, priced, pricing, rest⟩ := bind_ok rest
  obtain ⟨_, rfl⟩ := EStateM.Result.ok.inj pricing
  obtain ⟨closed, built, building, rest⟩ := bind_ok rest
  obtain ⟨rfl, rfl⟩ := EStateM.Result.ok.inj building
  obtain ⟨_, kept, closing, rest⟩ := bind_ok rest
  obtain ⟨_, _, sending, rest⟩ := bind_ok rest
  obtain ⟨_, rfl⟩ := EStateM.Result.ok.inj sending
  obtain ⟨_, rfl⟩ := EStateM.Result.ok.inj rest
  obtain ⟨store, returned, _⟩ := appendClosed_returns _
    (CandleBuilder.onTick_spec _ tick tick.marketId .sec1 valid).2.2 _
  obtain ⟨_, rfl⟩ := EStateM.Result.ok.inj (closing.symm.trans returned)
  exact congrArg (· ++ _) (congrArg PubSubBus.sent same)

/-- An event is applied and its message sent, or neither. -/
theorem PerfDb.processEvent_outcome (indexed : IndexedEvent) :
    let later := stateOf (processEvent fmt indexed r)
    (later.db.toStores = r.db.toStores ∧ later.db.pubsub.sent = r.db.pubsub.sent) ∨
      (later.db.toStores = (r.db.applyEvent indexed).toStores ∧ later.db.pubsub.sent =
        r.db.pubsub.sent ++ (indexed.message r.db.toStores).toList) := by
  cases logged : Wal.append fmt (.indexedEvent indexed) r.walState with
  | error reason s =>
      have failed : onWal (Wal.append fmt (.indexedEvent indexed)) r =
          .error reason (r.setWalState s) := by
        simp only [onWal, logged]
      rw [processEvent, bind_of_error failed]
      exact Or.inl ⟨rfl, rfl⟩
  | ok _ s =>
      rw [processEvent, bind_of_ok (onWal_of_ok logged)]
      exact Or.inr ⟨applyEvent_toStores indexed rfl, applyEvent_sent indexed (r.setWalState s).db⟩

end Calls

end Perfdb
