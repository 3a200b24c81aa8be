/-
# What a partition reports

Each event is a cause with its circumstances; its level, its text and its named fields follow
from it.
-/
import PartitionKeys.Settings.Basic

namespace PartitionKeys

/-- How much an event matters. -/
inductive Level where
  | debug
  | info
  | warn
deriving DecidableEq, Repr

/-- The name of a level. -/
def Level.name : Level → String
  | .debug => "DEBUG"
  | .info => "INFO"
  | .warn => "WARN"

/-- The value of a field of an event. -/
inductive FieldValue where
  | text (s : String)
  | count (n : Nat)
  | number (x : Binary64)
  | flag (b : Bool)
  /-- An error of the store, whose text is not kept. -/
  | storeError
deriving DecidableEq, Repr

/-- The operations on segments. -/
inductive SegmentAction where
  | adding
  | replacing
  | removing
deriving DecidableEq, Repr

/-- The word for an operation. -/
def SegmentAction.name : SegmentAction → String
  | .adding => "adding"
  | .replacing => "replacing"
  | .removing => "removing"

/-- What a segment operation works on, for display. -/
inductive Subject where
  | one (segment : String)
  | replacement (old new : String)
deriving DecidableEq, Repr

namespace Subject

/-- The fields that name the segments. -/
def fields : Subject → List (String × FieldValue)
  | .one segment => [("segment", .text segment)]
  | .replacement old new => [("old", .text old), ("new", .text new)]

/-- The segments in a sentence. -/
def label : Subject → String
  | .one segment => segment
  | .replacement old new => old ++ " with segment " ++ new

end Subject

/-- An event of a partition. -/
inductive Event where
  /-- A partition was set up; all its events belong to it. -/
  | opened (table : String) (partition : UInt32) (kind : TableKind)
  | loadFailed
  | deleteFailed
  | skippedEmpty (action : SegmentAction) (subject : Subject)
  | skippedStopped (action : SegmentAction) (subject : Subject)
  | skippedExpired (segment : String) (maxTime ttl : Binary64) (replacing : Bool)
  | skippedExpiredRemoval (segment : String) (maxTime ttl : Binary64)
  | rolledBack (segment : String) (restored : Nat)
  | duplicateKey (segment key : String)
  | skippedRecord (segment key : String)
  | skippedSweep
  | swept (removed : Nat) (floor : Binary64)
  | stopped (pending keys : Nat)
  | alreadyStopped
  | waiting (pending : Nat)
  | alreadyClosed
  | closing (keys : Nat)
  | closed
deriving DecidableEq, Repr

namespace Event

/-- How much an event matters. -/
def level : Event → Level
  | .loadFailed | .deleteFailed | .rolledBack .. | .alreadyStopped | .alreadyClosed => .warn
  | .duplicateKey .. | .skippedRecord .. | .swept .. => .debug
  | _ => .info

/-- The text of an event. -/
def message : Event → String
  | .opened .. => "partition_metadata"
  | .loadFailed => "failed to load watermark, starting unset"
  | .deleteFailed => "failed to delete watermark of TTL-disabled partition"
  | .skippedEmpty .replacing _ => "skip replacing segment with empty segment"
  | .skippedEmpty action _ => "skip " ++ action.name ++ " empty segment"
  | .skippedStopped action _ =>
    "skip " ++ action.name ++ " segment because metadata manager is already stopped"
  | .skippedExpired .. => "skip segment as its max time is out of TTL"
  | .skippedExpiredRemoval .. => "skip removing segment as its max time is out of TTL"
  | .rolledBack .. => "rolled back segment after a failed index update"
  | .duplicateKey .. => "duplicate primary key"
  | .skippedRecord .. => "skip ingesting record because metadata manager is already stopped"
  | .skippedSweep =>
    "skip removing expired primary keys because metadata manager is already stopped"
  | .swept .. => "removed expired primary keys"
  | .stopped .. => "stopped the metadata manager"
  | .alreadyStopped => "metadata manager is already stopped"
  | .waiting .. => "waiting for pending operations to finish"
  | .alreadyClosed => "metadata manager is already closed"
  | .closing .. => "closing the metadata manager"
  | .closed => "closed the metadata manager"

/-- The circumstances of an event. -/
def fields : Event → List (String × FieldValue)
  | .opened table partition kind =>
    [("table", .text table), ("partition", .count partition.toNat), ("mode", .text kind.name)]
  | .loadFailed | .deleteFailed => [("error", .storeError)]
  | .skippedEmpty _ subject | .skippedStopped _ subject => subject.fields
  | .skippedExpired segment maxTime ttl replacing =>
    [("segment", .text segment), ("max_time", .number maxTime), ("ttl", .number ttl),
      ("replacing", .flag replacing)]
  | .skippedExpiredRemoval segment maxTime ttl =>
    [("segment", .text segment), ("max_time", .number maxTime), ("ttl", .number ttl)]
  | .rolledBack segment restored => [("segment", .text segment), ("restored", .count restored)]
  | .duplicateKey segment key | .skippedRecord segment key =>
    [("segment", .text segment), ("key", .text key)]
  | .swept removed floor => [("removed", .count removed), ("floor", .number floor)]
  | .stopped pending keys => [("pending", .count pending), ("primary_keys", .count keys)]
  | .waiting pending => [("pending", .count pending)]
  | .closing keys => [("primary_keys", .count keys)]
  | .skippedSweep | .alreadyStopped | .alreadyClosed | .closed => []

end Event

end PartitionKeys
