import Mathlib
import Perfdb.Types

set_option autoImplicit false

namespace Perfdb

/-- Pub/sub channel identifiers. -/
inductive Channel where
  | prices
  | positions
  | orders
  | trades
  | liquidations
  | funding
  | balances
  deriving DecidableEq

/-- The messages the engine sends. -/
inductive PubSubMessage where
  | priceUpdate (marketId : MarketId) (price : F64) (timestampNs : UInt64)
  | positionUpdate (position : Position)
  | orderUpdate (order : Order)
  | liquidationEvent (positionId : Hash) (user : Address) (marketId : MarketId)
      (liquidationPrice penalty : FixedI128)
  | fundingUpdate (marketId : MarketId) (ratePerSecond rate24h : FixedI128)
  | balanceUpdate (balance : Balance)
  deriving DecidableEq

/-- The broadcast bus, as the messages sent so far, oldest first. Who receives
them is up to the subscribers. -/
structure PubSubBus where
  sent : List (Channel × PubSubMessage)
  deriving DecidableEq

namespace PubSubBus

def new : PubSubBus := ⟨[]⟩

def publish (bus : PubSubBus) (channel : Channel) (message : PubSubMessage) : PubSubBus :=
  ⟨bus.sent ++ [(channel, message)]⟩

end PubSubBus

end Perfdb
