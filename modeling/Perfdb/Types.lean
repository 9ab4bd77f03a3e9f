import Mathlib
import Perfdb.MachineNumbers

set_option autoImplicit false

namespace Perfdb

abbrev Address := Vector UInt8 20
abbrev Hash := Vector UInt8 32

instance : Std.TransOrd Address := inferInstance

instance : Std.TransOrd Hash := inferInstance

/-- 18-decimal fixed-point integer: `10 ^ 18` is one unit. -/
abbrev FixedI128 := I128

abbrev MarketId := UInt16

def marketCount : Nat := 18

structure PriceTick where
  timestampNs : UInt64
  marketId : MarketId
  pad : Vector UInt8 6
  price : F64
  deriving DecidableEq

structure CandleRecord where
  timestampNs : UInt64
  open_ : F64
  high : F64
  low : F64
  close : F64
  volume : F32
  marketId : MarketId
  timeframe : UInt8
  pad : UInt8
  deriving DecidableEq

inductive PositionStatus where
  | open_
  | closed
  | liquidated
  deriving DecidableEq

structure Position where
  positionId : Hash
  userAddress : Address
  marketId : MarketId
  isLong : Bool
  sizeUsd : FixedI128
  collateralUsd : FixedI128
  collateralToken : Address
  collateralAmount : FixedI128
  entryPrice : FixedI128
  exitPrice : Option FixedI128
  realizedPnl : Option FixedI128
  leverage : FixedI128
  status : PositionStatus
  openTx : Hash
  closeTx : Option Hash
  openBlock : UInt64
  closeBlock : Option UInt64
  openedAt : UInt64
  closedAt : Option UInt64
  deriving DecidableEq

inductive OrderType where
  | limit
  | stopLimit
  | takeProfit
  | stopLoss
  deriving DecidableEq

def OrderType.ofU8 (v : UInt8) : OrderType :=
  if v = 0 then .limit
  else if v = 1 then .stopLimit
  else if v = 2 then .takeProfit
  else if v = 3 then .stopLoss
  else .limit

inductive OrderStatus where
  | active
  | executed
  | cancelled
  deriving DecidableEq

structure Order where
  orderId : Hash
  userAddress : Address
  marketId : MarketId
  isLong : Bool
  orderType : OrderType
  triggerPrice : FixedI128
  limitPrice : Option FixedI128
  sizeUsd : FixedI128
  leverage : FixedI128
  collateralToken : Address
  collateralAmount : FixedI128
  status : OrderStatus
  executionPrice : Option FixedI128
  positionId : Option Hash
  txHash : Hash
  blockNumber : UInt64
  createdAt : UInt64
  executedAt : Option UInt64
  deriving DecidableEq

/-- The event variants produced by the chain indexer. -/
inductive Event where
  | positionOpened (positionId : Hash) (user : Address) (marketId : MarketId) (isLong : Bool)
      (sizeUsd leverage entryPrice : FixedI128) (collateralToken : Address)
      (collateralAmount : FixedI128)
  | positionClosed (positionId : Hash) (user : Address) (marketId : MarketId)
      (closedSizeUsd exitPrice realizedPnl : FixedI128) (isFullClose : Bool)
  | positionModified (positionId : Hash)
      (newSizeUsd newCollateralUsd newCollateralAmount : FixedI128)
  | orderPlaced (orderId : Hash) (user : Address) (marketId : MarketId) (orderType : UInt8)
      (isLong : Bool) (triggerPrice sizeUsd : FixedI128)
  | orderExecuted (orderId positionId : Hash) (executionPrice : FixedI128)
  | orderCancelled (orderId : Hash) (user : Address)
  | liquidation (positionId : Hash) (user : Address) (marketId : MarketId)
      (liquidationPrice penalty : FixedI128) (keeper : Address)
  | adlExecuted (positionId : Hash) (deleveragedSizeUsd : FixedI128)
  | priceUpdated (marketId : MarketId) (price : FixedI128) (timestamp : UInt64)
  | fundingSettled (marketId : MarketId) (fundingRate longPayment shortPayment : FixedI128)
  | fundingRateUpdated (marketId : MarketId) (newRatePerSecond fundingRate24h : FixedI128)
  | marketCreated (marketId : MarketId) (name symbol : String)
  | marketPaused (marketId : MarketId)
  | collateralDeposited (user token : Address) (amount : FixedI128)
  | collateralWithdrawn (user token : Address) (amount : FixedI128)
  | vaultCreated (user vault : Address)
  | vaultDeficit (token : Address) (deficit : FixedI128)
  deriving DecidableEq

/-- An event with its block and transaction context. -/
structure IndexedEvent where
  blockNumber : UInt64
  blockTimestamp : UInt64
  txHash : Hash
  txIndex : UInt32
  logIndex : UInt32
  event : Event
  deriving DecidableEq

structure User where
  address : Address
  vaultAddress : Option Address
  referralCode : Option String
  referredBy : Option Address
  tier : String
  feeDiscountBps : UInt32
  createdAt : UInt64
  firstTradeAt : Option UInt64
  lastActiveAt : Option UInt64
  deriving DecidableEq

structure TraderStats where
  address : Address
  totalPnl : FixedI128
  totalVolume : FixedI128
  totalFeesPaid : FixedI128
  totalTrades : UInt32
  totalPositions : UInt32
  openPositions : UInt32
  winCount : UInt32
  lossCount : UInt32
  liquidationCount : UInt32
  bestTradePnl : FixedI128
  worstTradePnl : FixedI128
  avgLeverage : FixedI128
  maxLeverage : FixedI128
  totalFundingPaid : FixedI128
  totalFundingReceived : FixedI128
  firstTradeAt : Option UInt64
  lastTradeAt : Option UInt64
  deriving DecidableEq

structure DailyStats where
  date : UInt32
  pnl : FixedI128
  volume : FixedI128
  trades : UInt32
  fees : FixedI128
  deriving DecidableEq

structure Balance where
  userAddress : Address
  token : Address
  amount : FixedI128
  locked : FixedI128
  available : FixedI128
  deriving DecidableEq

/-- The errors of the engine, without the operating system's own error value. -/
inductive PerfDbError where
  | io (context : String)
  | serialization (context detail : String)
  | corruption (detail : String)
  | invalidArgument (detail : String)
  deriving DecidableEq

/-- Everything the log can hold. -/
inductive WalEntry where
  | indexedEvent (indexed : IndexedEvent)
  | priceTick (timestampNs : UInt64) (marketId : MarketId) (price : F64)
  | candleUpdate (timestampNs : UInt64) (marketId : MarketId) (timeframe : UInt8)
      (open_ high low close : F64) (volume : F32)
  | balanceUpdate (user token : Address) (amount locked available : FixedI128)
  | checkpoint (blockNumber : UInt64)
  | batchEnd
  deriving DecidableEq

end Perfdb
