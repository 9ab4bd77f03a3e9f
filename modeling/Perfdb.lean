import Perfdb.Bytes
import Perfdb.FrameStream
import Perfdb.NumberedNames
import Perfdb.Triple
import Perfdb.FaultyFiles
import Perfdb.MachineNumbers
import Perfdb.Types
import Perfdb.Unordered
import Perfdb.Wal
import Perfdb.WalReplay
import Perfdb.WalAppend
import Perfdb.WalLog
import Perfdb.Codec
import Perfdb.Bincode
import Perfdb.WalSession
import Perfdb.WalTorn
import Perfdb.WalTruncate
import Perfdb.WalCorruption
import Perfdb.WalCrash
import Perfdb.WalFailure
import Perfdb.Table
import Perfdb.Positions
import Perfdb.Orders
import Perfdb.Balances
import Perfdb.MarketState
import Perfdb.Relational
import Perfdb.Stats
import Perfdb.EventStore
import Perfdb.PubSub
import Perfdb.Snapshot
import Perfdb.Candles
import Perfdb.Grouping
import Perfdb.CandleOutputs
import Perfdb.SnapshotFiles
import Perfdb.Engine
import Perfdb.SnapshotBincode
import Perfdb.EngineCalls
import Perfdb.Opening
import Perfdb.ReplayAgreement
import Perfdb.ReplayPositions
import Perfdb.CandleHistory
import Perfdb.StoreKeys
import Perfdb.SnapshotRestore
import Perfdb.Inverted
import Perfdb.Totals
import Perfdb.EventEffects
import Perfdb.Histories
import Perfdb.Collateral
import Perfdb.PositionIndexes
import Perfdb.OrderIndexes
import Perfdb.OpenPositions
import Perfdb.OpenCounters
import Perfdb.OpenInterest
import Perfdb.Recovery
import Perfdb.RecoveryAccounts
import Perfdb.RecoveryInterest
import Perfdb.Compaction
import Perfdb.EventQueries
import Perfdb.RecoveryEvents
import Perfdb.RecoveryCheckpoint
import Perfdb.SnapshotInterrupted
import Perfdb.Mmap
import Perfdb.MmapAppend
import Perfdb.MmapRecords
import Perfdb.MmapAtomic
import Perfdb.MmapDamaged
import Perfdb.TickFiles
import Perfdb.Bisection
import Perfdb.TimeRange
import Perfdb.MmapBounds
import Perfdb.Available
import Perfdb.OrderLifecycle
import Perfdb.UniqueIndex
import Perfdb.ApiKeys
import Perfdb.ReferralCodes
import Perfdb.WrappingSums
import Perfdb.TraderBooks
import Perfdb.Postings
import Perfdb.DailyBooks
import Perfdb.RecoveryDaily
import Perfdb.FaultyCandles
import Perfdb.Commuting
import Perfdb.EventChanges
import Perfdb.LevelChanges
import Perfdb.IndependentEvents
import Perfdb.TickCrash
import Perfdb.Rollover
import Perfdb.TopN
import Perfdb.Leaderboards
import Perfdb.Calendar
import Perfdb.Dates
import Perfdb.Hexadecimal
import Perfdb.Addresses
import Perfdb.DecimalText
import Perfdb.FormatFixed
import Perfdb.Buckets
import Perfdb.OrderbookDepth
import Perfdb.BincodeParts
import Perfdb.Oversized
import Perfdb.Enlisted
import Perfdb.Competitions
import Perfdb.Alerts
import Perfdb.CollateralUnits
import Perfdb.FrameGrammar
import Perfdb.ReplayLoop
import Perfdb.Sections
import Perfdb.BalanceIndex
import Perfdb.MmapIter
import Perfdb.MmapGrowth
import Perfdb.LastOfRuns
import Perfdb.FileArrays
import Perfdb.CandleFiles
import Perfdb.CandleUpserts
import Perfdb.Restarts
import Perfdb.UniqueBuckets
import Perfdb.LostTicks
import Perfdb.Cuts
import Perfdb.AtomicSteps
import Perfdb.ConcurrentSnapshots
import Perfdb.ConsistentSnapshots
import Perfdb.TornSnapshots
import Perfdb.Reorderings
import Perfdb.OpenedStores
import Perfdb.Messages
import Perfdb.FaultyCalls
import Perfdb.Mirrors
import Perfdb.StoreOperations
import Perfdb.OperationEffects
import Perfdb.Serializability
import Perfdb.Registers
import Perfdb.LostDeposits
import Perfdb.Feeds
import Perfdb.SnapshotCleanup
import Perfdb.ConcurrentTrades
