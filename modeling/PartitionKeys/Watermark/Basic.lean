/-
# The watermark

The watermark is the largest time seen so far.  Keys whose time is below the floor, the
watermark less the retention, are expired.
-/
import PartitionKeys.Settings.Basic

namespace PartitionKeys

/-- The largest time seen so far. -/
structure Watermark where
  time : Binary64
deriving DecidableEq, Repr

namespace Watermark

/-- The watermark before any time was seen; times are positive. -/
def unset : Watermark := ⟨Binary64.zero⟩

/-- Takes a time into account; a time that is not above the watermark leaves it as it is. -/
def observe (w : Watermark) (time : Binary64) : Watermark := if w.time < time then ⟨time⟩ else w

/-- The smallest time that is kept under a retention. -/
def floor (w : Watermark) (ttl : Binary64) : Binary64 := w.time - ttl

/-- The name of the file that keeps the watermark of a partition. -/
def fileName (partition : UInt32) : TableKind → String
  | .dedup => "ttl.watermark.partition." ++ toString partition.toNat ++ ".dedup"
  | .upsert => "ttl.watermark.partition." ++ toString partition.toNat

/-- The path of the watermark file in a directory. -/
def path (directory : String) (partition : UInt32) (kind : TableKind) : String :=
  if directory.isEmpty || directory.endsWith "/" then directory ++ fileName partition kind
  else directory ++ "/" ++ fileName partition kind

end Watermark

/-- The path of a partition's watermark file, if the table has a directory. -/
def Settings.watermarkPath (s : Settings) : Option String :=
  s.directory.map fun directory => Watermark.path directory s.partition s.kind

end PartitionKeys
