import TxService.ActiveWriters
import TxService.ArchiveOrder
import TxService.BlockingQueue
import TxService.BucketStates
import TxService.BufferedCounts
import TxService.CacheCompleteness
import TxService.CcRequestPool
import TxService.CommandLog
import TxService.CommitDominance
import TxService.DataLog
import TxService.DataSyncDrain
import TxService.DeadLockCoverage
import TxService.EntryWord
import TxService.FlushMemory
import TxService.FlushedBit
import TxService.ForwardDelivery
import TxService.HashScanMerge
import TxService.IdleCommands
import TxService.LeaderRecovery
import TxService.LockAborts
import TxService.LockKinds
import TxService.LockRecyclingRuns
import TxService.LogTruncation
import TxService.MembershipPlans
import TxService.MergedErrors
import TxService.MigrationUpload
import TxService.NakedBuckets
import TxService.NodePins
import TxService.ObjectCounts
import TxService.RandomPairing
import TxService.RangeSplitKeys
import TxService.RangeStreamSorted
import TxService.RecoveryService
import TxService.RemoteAcquireRuns
import TxService.ReplayConvergence
import TxService.ScanClose
import TxService.ScanSliceRequest
import TxService.SnapshotReads
import TxService.SplitKickout
import TxService.StandbyConsistency
import TxService.StandbyConvergence
import TxService.SyncHandle
import TxService.TxStartTsCollector
import TxService.UploadBatch
import TxService.UpsertTableEnds
import TxService.WriteForwardRuns
