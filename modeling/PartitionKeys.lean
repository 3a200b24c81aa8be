import PartitionKeys.Key.Json
import PartitionKeys.Partition.Ingest
import PartitionKeys.Partition.SegmentChange
import PartitionKeys.Partition.Shutdown
import PartitionKeys.Partition.Summary
import PartitionKeys.Partition.Sweep
import PartitionKeys.Settings.Json
import PartitionKeys.Version.Json
import PartitionKeys.Proofs.Index.Lookup
import PartitionKeys.Proofs.Partition.Pass
import PartitionKeys.Proofs.Partition.Change
import PartitionKeys.Proofs.Partition.Failure
import PartitionKeys.Proofs.Interleaving.Task
import PartitionKeys.Proofs.Interleaving.FailedAdds
import PartitionKeys.Proofs.Interleaving.Removal
import PartitionKeys.Proofs.Index.WellFormed
import PartitionKeys.Proofs.Partition.Run
import PartitionKeys.Proofs.Partition.Ownership
import PartitionKeys.Proofs.Index.Agreement
import PartitionKeys.Proofs.Partition.Replacement
import PartitionKeys.Proofs.Partition.Gauge
import PartitionKeys.Proofs.Binary64.Subtraction
import PartitionKeys.Proofs.Partition.Staleness
import PartitionKeys.Proofs.Partition.Timely
import PartitionKeys.Proofs.Partition.Sweeping
import PartitionKeys.Proofs.Interleaving.Lobby
import PartitionKeys.Proofs.Interleaving.Shutdown
import PartitionKeys.Proofs.Version.Join
import PartitionKeys.Proofs.Partition.Origin
import PartitionKeys.Proofs.Partition.Admission
import PartitionKeys.Proofs.Partition.Inheritance
import PartitionKeys.Proofs.Partition.Lifecycle
import PartitionKeys.Proofs.Partition.FirstRecord
import PartitionKeys.Proofs.Version.Order
import PartitionKeys.Proofs.Version.Dominance
import PartitionKeys.Proofs.Partition.Repetition
import PartitionKeys.Proofs.Version.Single
import PartitionKeys.Proofs.Partition.Convergence
import PartitionKeys.Proofs.Interleaving.Convergence
import PartitionKeys.Proofs.Partition.Skipping
import PartitionKeys.Proofs.Partition.LargestTime
import PartitionKeys.Proofs.Partition.FirstWatermark
import PartitionKeys.Proofs.Partition.Restart
import PartitionKeys.Proofs.Partition.Counting
import PartitionKeys.Proofs.Interleaving.EntryTimes
import PartitionKeys.Proofs.Index.Matching
import PartitionKeys.Proofs.Partition.Locality
import PartitionKeys.Proofs.Partition.Counterparts
import PartitionKeys.Proofs.Partition.Commuting
import PartitionKeys.Proofs.Partition.Hashing
import PartitionKeys.Proofs.Partition.Growth
import PartitionKeys.Proofs.Json.Literal
import PartitionKeys.Proofs.Json.Values
import PartitionKeys.Proofs.Binary64.Nearest
import PartitionKeys.Proofs.Key.Json
import PartitionKeys.Proofs.Binary64.Shortest
import PartitionKeys.Proofs.Json.Float
import PartitionKeys.Proofs.Settings.Checked
import PartitionKeys.Proofs.Settings.Json
import PartitionKeys.Proofs.Watermark.Names
import PartitionKeys.Proofs.Watermark.Places
import PartitionKeys.Proofs.Watermark.Steps
import PartitionKeys.Proofs.Watermark.Calls
import PartitionKeys.Proofs.Watermark.Refinement
import PartitionKeys.Proofs.Watermark.Trees
import PartitionKeys.Proofs.Watermark.Interruption
import PartitionKeys.Proofs.Key.Encoding
import PartitionKeys.Proofs.Partition.Configured
import PartitionKeys.Proofs.Version.Columnwise
import PartitionKeys.Proofs.Version.Decision
import PartitionKeys.Proofs.Version.Positionwise
import PartitionKeys.Proofs.Partition.Expiry
import PartitionKeys.Proofs.Partition.Outdated
import PartitionKeys.Proofs.Partition.Requested
import PartitionKeys.Proofs.Index.Ascending
import PartitionKeys.Proofs.Version.Ranking
