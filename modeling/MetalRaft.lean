import MetalRaft.Committed
import MetalRaft.FullLog
import MetalRaft.ElectionSafety
import MetalRaft.WrappingTerm
import MetalRaft.AppendOnly
import MetalRaft.LogMatching
import MetalRaft.Outsider
import MetalRaft.QuorumChanges
import MetalRaft.Lease
import MetalRaft.Restriction
import MetalRaft.Membership
import MetalRaft.OneChange
import MetalRaft.PreVote
import MetalRaft.DeadEnd
import MetalRaft.Acknowledged
import MetalRaft.Committing
import MetalRaft.LeaseReads
import MetalRaft.SnapshotAnswers
import MetalRaft.StorageCalls
import MetalRaft.CrashConsistency
import MetalRaft.Placement
import MetalRaft.Timers
import MetalRaft.WellFormed
import MetalRaft.ApplyOrder
import MetalRaft.LogBound
import MetalRaft.CatchUp
import MetalRaft.Replay
import MetalRaft.Install
import MetalRaft.Requests
import MetalRaft.Compaction
import MetalRaft.LeaderHint
import MetalRaft.Counters
import MetalRaft.Median
import MetalRaft.Answers
import MetalRaft.Wire
import MetalRaft.ChunkTransfer
import MetalRaft.LogDecoder
import MetalRaft.SnapshotText
import MetalRaft.TestClusterRuns
import MetalRaft.Partitions
import MetalRaft.Campaign
import MetalRaft.TestElections
import MetalRaft.Reign
import MetalRaft.TestReigns
import MetalRaft.DeafNode
