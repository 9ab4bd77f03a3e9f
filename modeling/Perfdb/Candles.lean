import Mathlib
import Perfdb.Table
import Perfdb.Types

set_option autoImplicit false

namespace Perfdb

/-- 16 supported candle timeframes. -/
inductive Timeframe where
  | sec1
  | sec5
  | sec15
  | sec30
  | min1
  | min2
  | min3
  | min5
  | min15
  | min30
  | hour1
  | hour2
  | hour4
  | hour8
  | day1
  | week1
  deriving DecidableEq

namespace Timeframe

/-- All 16 variants in index order. -/
def all : List Timeframe :=
  [sec1, sec5, sec15, sec30, min1, min2, min3, min5, min15, min30, hour1, hour2, hour4, hour8,
    day1, week1]

/-- `tf as u8`. -/
def toU8 : Timeframe → UInt8
  | sec1 => 0
  | sec5 => 1
  | sec15 => 2
  | sec30 => 3
  | min1 => 4
  | min2 => 5
  | min3 => 6
  | min5 => 7
  | min15 => 8
  | min30 => 9
  | hour1 => 10
  | hour2 => 11
  | hour4 => 12
  | hour8 => 13
  | day1 => 14
  | week1 => 15

/-- Convert `u8` index back to enum. -/
def fromU8 (v : UInt8) : Option Timeframe := all[v.toNat]?

def durationMs : Timeframe → UInt64
  | sec1 => 1000
  | sec5 => 5000
  | sec15 => 15000
  | sec30 => 30000
  | min1 => 60000
  | min2 => 120000
  | min3 => 180000
  | min5 => 300000
  | min15 => 900000
  | min30 => 1800000
  | hour1 => 3600000
  | hour2 => 7200000
  | hour4 => 14400000
  | hour8 => 28800000
  | day1 => 86400000
  | week1 => 604800000

/-- Round a nanosecond timestamp down to the start of the containing bucket. -/
def bucketStartNs (tf : Timeframe) (timestampNs : UInt64) : UInt64 :=
  let dNs := tf.durationMs * 1000000
  timestampNs - timestampNs % dNs

end Timeframe

def tfCount : Nat := 16

/-- The place of a (market, timeframe) pair in a flat array of all of them. -/
def flatIndex (marketId : MarketId) (tf : Timeframe) : Nat :=
  marketId.toNat * tfCount + tf.toU8.toNat

/-- In-memory OHLCV aggregation state for one (market, timeframe) pair. -/
structure CandleBuffer where
  bucketStartNs : UInt64
  open_ : F64
  high : F64
  low : F64
  close : F64
  volume : F32
  tickCount : UInt32
  deriving DecidableEq

namespace CandleBuffer

def new (bucketStartNs : UInt64) (price : F64) : CandleBuffer :=
  ⟨bucketStartNs, price, price, price, price, F32.zero, 1⟩

def update (buffer : CandleBuffer) (price : F64) : CandleBuffer :=
  { buffer with
    high := if buffer.high < price then price else buffer.high
    low := if price < buffer.low then price else buffer.low
    close := price
    tickCount := buffer.tickCount + 1 }

def toRecord (buffer : CandleBuffer) (marketId : MarketId) (tf : Timeframe) : CandleRecord where
  timestampNs := buffer.bucketStartNs
  open_ := buffer.open_
  high := buffer.high
  low := buffer.low
  close := buffer.close
  volume := buffer.volume
  marketId := marketId
  timeframe := tf.toU8
  pad := 0

end CandleBuffer

/-- Output from the candle builder when processing a tick. -/
inductive CandleOutput where
  | closed (candle : CandleRecord)
  | live (candle : CandleRecord)
  deriving DecidableEq

/-- Real-time candle builder for all markets across all 16 timeframes. -/
structure CandleBuilder where
  buffers : Vector (Option CandleBuffer) (marketCount * tfCount)

namespace CandleBuilder

def new : CandleBuilder := ⟨Vector.replicate _ none⟩

def tickBuffer (tick : PriceTick) (tf : Timeframe) (buffer : Option CandleBuffer) :
    CandleBuffer × List CandleOutput :=
  let bucketNs := tf.bucketStartNs tick.timestampNs
  let fresh := CandleBuffer.new bucketNs tick.price
  match buffer with
  | some buf =>
      if buf.bucketStartNs = bucketNs then
        (buf.update tick.price, [.live ((buf.update tick.price).toRecord tick.marketId tf)])
      else
        (fresh, [.closed (buf.toRecord tick.marketId tf),
          .live (fresh.toRecord tick.marketId tf)])
  | none => (fresh, [.live (fresh.toRecord tick.marketId tf)])

def tickTimeframes (tick : PriceTick) : List Timeframe → CandleBuilder →
    CandleBuilder × List CandleOutput
  | [], builder => (builder, [])
  | tf :: tfs, builder =>
      let idx := flatIndex tick.marketId tf
      let (buffer, output) := tickBuffer tick tf (builder.buffers[idx]?.getD none)
      let (last, rest) :=
        tickTimeframes tick tfs ⟨modifySlot builder.buffers idx fun _ => some buffer⟩
      (last, output ++ rest)

/-- Process a price tick. Returns candle outputs for all 16 timeframes. -/
def onTick (builder : CandleBuilder) (tick : PriceTick) : CandleBuilder × List CandleOutput :=
  if marketCount ≤ tick.marketId.toNat then (builder, [])
  else tickTimeframes tick Timeframe.all builder

/-- Current live candle for a (market, timeframe) pair. -/
def current (builder : CandleBuilder) (marketId : MarketId) (tf : Timeframe) :
    Option CandleRecord :=
  (builder.buffers[flatIndex marketId tf]?.getD none).map fun buf => buf.toRecord marketId tf

/-- Flush all current buffers as finalized candles (for graceful shutdown). -/
def flushAll (builder : CandleBuilder) : List CandleRecord :=
  (List.range marketCount).flatMap fun mid =>
    Timeframe.all.filterMap fun tf => builder.current mid.toUInt16 tf

/-- Seed a buffer from a previously stored candle (used during recovery). -/
def seed (builder : CandleBuilder) (marketId : MarketId) (tf : Timeframe)
    (candle : CandleRecord) : CandleBuilder :=
  ⟨modifySlot builder.buffers (flatIndex marketId tf) fun _ => some {
    bucketStartNs := candle.timestampNs
    open_ := candle.open_
    high := candle.high
    low := candle.low
    close := candle.close
    volume := candle.volume
    tickCount := 0 }⟩

end CandleBuilder

/-- Per-market append-only tick storage, as the records in each file; a file that
has not been opened is `none`. -/
structure TickStore where
  files : Vector (Option (List PriceTick)) marketCount

namespace TickStore

def new : TickStore := ⟨Vector.replicate _ none⟩

/-- Append a tick to the appropriate market file. -/
def append (store : TickStore) (tick : PriceTick) : Except PerfDbError TickStore :=
  if marketCount ≤ tick.marketId.toNat then
    .error (.invalidArgument (toString "market_id " ++ toString tick.marketId.toNat ++
      " out of range (max " ++ toString (marketCount - 1) ++ ")"))
  else .ok ⟨modifySlot store.files tick.marketId.toNat fun file => some (file.getD [] ++ [tick])⟩

def ticks (store : TickStore) (marketId : MarketId) : List PriceTick :=
  (store.files[marketId.toNat]?.getD none).getD []

end TickStore

/-- Pre-computed candle storage, one file of records per (market, timeframe) pair. -/
structure CandleStore where
  files : Vector (Option (List CandleRecord)) (marketCount * tfCount)

namespace CandleStore

def new : CandleStore := ⟨Vector.replicate _ none⟩

/-- Append a finalized candle. No dedup: the caller must ensure this is a new bucket. -/
def append (store : CandleStore) (candle : CandleRecord) : Except PerfDbError CandleStore :=
  match Timeframe.fromU8 candle.timeframe with
  | none => .error (.invalidArgument ("invalid timeframe: " ++ toString candle.timeframe.toNat))
  | some tf =>
      let idx := flatIndex candle.marketId tf
      if marketCount * tfCount ≤ idx then
        .error (.invalidArgument ("market_id " ++ toString candle.marketId.toNat ++
          " out of range"))
      else .ok ⟨modifySlot store.files idx fun file => some (file.getD [] ++ [candle])⟩

def candles (store : CandleStore) (marketId : MarketId) (tf : Timeframe) : List CandleRecord :=
  (store.files[flatIndex marketId tf]?.getD none).getD []

/-- Latest candle for a (market, timeframe) pair. -/
def latest (store : CandleStore) (marketId : MarketId) (tf : Timeframe) : Option CandleRecord :=
  (store.candles marketId tf).getLast?

end CandleStore

end Perfdb
