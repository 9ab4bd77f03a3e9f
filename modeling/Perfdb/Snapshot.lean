import Mathlib
import Perfdb.FaultyFiles
import Perfdb.MarketState
import Perfdb.NumberedNames
import Perfdb.Relational
import Perfdb.Unordered

set_option autoImplicit false

namespace Perfdb

structure SnapshotCheckpoint where
  lastBlock : UInt64
  lastBlockHash : String
  lastBlockTimestamp : UInt64
  deriving DecidableEq

def SnapshotCheckpoint.ofCheckpoint (cp : Checkpoint) : SnapshotCheckpoint :=
  ⟨cp.lastBlock, cp.lastBlockHash, cp.lastBlockTimestamp⟩

structure DailyStatsEntry where
  address : Address
  stats : DailyStats
  deriving DecidableEq

/-- Serializable version of `MarketSnapshot`. -/
structure SnapshotMarketState where
  marketId : MarketId
  latestPrice : F64
  lastUpdateNs : UInt64
  markPrice : Option FixedI128
  indexPrice : Option FixedI128
  fundingRatePerSecond : FixedI128
  fundingRate24h : FixedI128
  longOi : FixedI128
  shortOi : FixedI128
  enabled : Bool
  paused : Bool
  maxLeverage : Option FixedI128
  maintenanceMarginBps : Option UInt32
  volume24h : Option FixedI128
  trades24h : Option UInt32
  priceChange24h : Option FixedI128
  priceChangePct24h : Option FixedI128
  deriving DecidableEq

def SnapshotMarketState.ofSnapshot (ms : MarketSnapshot) : SnapshotMarketState where
  marketId := ms.marketId
  latestPrice := ms.latestPrice
  lastUpdateNs := ms.lastUpdateNs
  markPrice := ms.markPrice
  indexPrice := ms.indexPrice
  fundingRatePerSecond := ms.fundingRatePerSecond
  fundingRate24h := ms.fundingRate24h
  longOi := ms.longOi
  shortOi := ms.shortOi
  enabled := ms.enabled
  paused := ms.paused
  maxLeverage := ms.maxLeverage
  maintenanceMarginBps := ms.maintenanceMarginBps
  volume24h := ms.volume24h
  trades24h := ms.trades24h
  priceChange24h := ms.priceChange24h
  priceChangePct24h := ms.priceChangePct24h

/-- Complete serializable snapshot of all in-memory state. -/
structure StateSnapshot where
  checkpoint : SnapshotCheckpoint
  positions : List Position
  orders : List Order
  balances : List Balance
  users : List User
  traderStats : List TraderStats
  dailyStats : List DailyStatsEntry
  marketStates : List SnapshotMarketState
  snapshotTimestamp : UInt64
  deriving DecidableEq

namespace Snapshot

/-- Bincode on `StateSnapshot`. An error carries its text. -/
structure Format where
  serialize : StateSnapshot → Bytes
  deserialize : Bytes → Except String StateSnapshot

/-- `bincode::deserialize` inverts `bincode::serialize`. -/
def Format.RoundTrips (fmt : Format) : Prop :=
  ∀ snapshot, fmt.deserialize (fmt.serialize snapshot) = .ok snapshot

def snapshotName (block : Nat) : String := numberedName "snapshot_" ".bin" 12 block

/-- Write a snapshot to disk as `snapshot_{block}.bin` in the given directory. -/
def writeSnapshot (fmt : Format) (path : String) (snapshot : StateSnapshot) :
    EStateM (Abort PerfDbError) World String := do
  let filename := snapshotName snapshot.checkpoint.lastBlock.toNat
  let path := path ++ "/" ++ filename
  writeFile (.io ("write snapshot: " ++ path)) filename (fmt.serialize snapshot)
  pure path

/-- The block in the name of a snapshot file. A number that is no `u64` is none. -/
def blockOf (name : String) : Option Nat :=
  (numberOf "snapshot_" ".bin" name).filter fun block => block < 2 ^ 64

/-- The snapshot files of a directory with their block numbers. -/
def listSnapshots (order : Iteration) (dir : Dir) : List (Nat × String) :=
  (order.arrange dir.keys).filterMap fun name => (blockOf name).map fun block => (block, name)

/-- Load the latest snapshot from a directory. Returns `none` if no snapshots exist. -/
def loadLatestSnapshot (fmt : Format) (order : Iteration) (path : String) (dir : Dir) :
    Except PerfDbError (Option StateSnapshot) :=
  match (listSnapshots order dir).insertionSort fun a b => b.1 ≤ a.1 with
  | [] => .ok none
  | (_, name) :: _ =>
      match dir[name]? with
      | none => .error (.io ("read snapshot: " ++ path ++ "/" ++ name))
      | some file =>
          match fmt.deserialize file.contents with
          | .error detail => .error (.serialization "snapshot deserialize" detail)
          | .ok snapshot => .ok (some snapshot)

end Snapshot

end Perfdb
