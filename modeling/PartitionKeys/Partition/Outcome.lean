/-
# Results of operations on a partition

An operation is applied, with counts of what it did; or it is skipped, for a reason that left
the index alone; or it fails.
-/
import PartitionKeys.Index.Basic
import PartitionKeys.Gate
import PartitionKeys.Telemetry.Event
import PartitionKeys.Watermark.Store
import PartitionKeys.Binary64.Notation

namespace PartitionKeys

/-- Why an operation left the index alone. -/
inductive SkipReason where
  | emptySegment
  /-- The partition was stopped before the operation came. -/
  | stopped
  /-- Everything in question is older than the floor. -/
  | outOfTtl (maxTime floor : Binary64)
  | ttlDisabled
deriving DecidableEq, Repr

namespace SkipReason

/-- Times in sentences are written positionally, whole numbers without a point; ties go up. -/
def timeLayout : Layout where
  positional _ := true
  keepPoint := false
  plusSign := false
  tie := .up

/-- The text of a reason. -/
def text : SkipReason → String
  | .emptySegment => "segment is empty"
  | .stopped => "metadata manager is already stopped"
  | .outOfTtl maxTime floor =>
    "max time " ++ timeLayout.text maxTime ++ " is below the TTL floor " ++ timeLayout.text floor
  | .ttlDisabled => "metadata TTL is disabled"

end SkipReason

/-- What became of the records of a segment. -/
structure Counts where
  inserted : Nat := 0
  superseded : Nat := 0
  rejected : Nat := 0
  /-- The keys that were dropped. -/
  removed : Nat := 0
deriving DecidableEq, Repr

/-- Counts one more record. -/
def Counts.record (c : Counts) : Outcome → Counts
  | .inserted => { c with inserted := c.inserted + 1 }
  | .superseded => { c with superseded := c.superseded + 1 }
  | .rejected => { c with rejected := c.rejected + 1 }

/-- The result of an operation on a segment. -/
inductive SegmentOutcome where
  | applied (counts : Counts)
  | skipped (reason : SkipReason)
deriving DecidableEq, Repr

/-- The result of taking in a record. -/
inductive RecordOutcome where
  | indexed (outcome : Outcome)
  | skipped (reason : SkipReason)
deriving DecidableEq, Repr

/-- Whether the record's key was there already and the record was turned away. -/
def RecordOutcome.isDuplicate : RecordOutcome → Bool
  | .indexed .rejected => true
  | _ => false

/-- The result of dropping expired keys. -/
inductive SweepOutcome where
  | swept (removed : Nat) (floor : Binary64)
  | skipped (reason : SkipReason)
deriving DecidableEq, Repr

/-- Why an operation fails. -/
inductive Failure where
  | settings (error : SettingsError)
  | unsupportedSegment (segment : String) (kind : SegmentKind) (table : String)
  | index (error : IndexError)
  | reading (error : SegmentError)
  | store (error : StoreError)
  | gate (error : GateError)
  /-- A failure inside an operation on segments. -/
  | operation (action : SegmentAction) (label table : String) (kind : TableKind) (cause : Failure)
deriving DecidableEq, Repr

namespace Failure

/-- The failure inside all operations. -/
def root : Failure → Failure
  | .operation _ _ _ _ cause => cause.root
  | other => other

/-- The text of a failure. -/
def message : Failure → String
  | .settings error => error.message
  | .unsupportedSegment segment kind table =>
    "got unsupported " ++ kind.name ++ " segment " ++ segment ++ " for table " ++ table
  | .index error => error.message
  | .reading error => error.message
  | .store error => error.message
  | .gate error => error.message
  | .operation action label table kind cause =>
    "caught error while " ++ action.name ++ " segment " ++ label ++ " of table " ++ table
      ++ " in " ++ kind.managerName ++ ": " ++ cause.message

end Failure

end PartitionKeys
