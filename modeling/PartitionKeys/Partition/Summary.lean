/-
# The summary of a partition

One line that names the partition and says how it stands.
-/
import PartitionKeys.Partition.Basic
import PartitionKeys.Text.Quoted

namespace PartitionKeys

/-- In summaries numbers are written positionally from `1e-4` up to, but not including,
`1e16`, with a point; other exponents have no plus sign and ties go up. -/
def summaryLayout : Layout where
  positional e := decide (-4 ≤ e) && decide (e < 16)
  keepPoint := true
  plusSign := false
  tie := .up

/-- The kind of a table in a summary. -/
def TableKind.title : TableKind → String
  | .dedup => "Dedup"
  | .upsert => "Upsert"

/-- The phase of a gate in a summary. -/
def Phase.title : Phase → String
  | .opened => "Open"
  | .stopping => "Stopping"
  | .closed => "Closed"

/-- The summary of a partition. -/
def Partition.summary (p : Partition) : String :=
  "PartitionMetadataManager \x7b table: " ++ Text.quoted p.settings.table
    ++ ", partition_id: " ++ toString p.settings.partition.toNat
    ++ ", mode: " ++ p.settings.kind.title
    ++ ", state: " ++ p.gate.phase.title
    ++ ", watermark: " ++ summaryLayout.text p.watermark.time
    ++ ", primary_keys: " ++ toString p.size ++ " \x7d"

end PartitionKeys
