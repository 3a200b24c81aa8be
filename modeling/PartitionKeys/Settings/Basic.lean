/-
# Settings of a partition

A table either drops repeated keys or keeps the newest record of each key.  Settings name
the table, its key columns and its comparison columns, and say for how long keys are kept
behind the watermark.  `Settings.checked` fills in what can be inferred and refuses what
contradicts itself.
-/
import PartitionKeys.Binary64.Rounding
import PartitionKeys.Key.Hashed

namespace PartitionKeys

/-- What a table does with a second record of a key. -/
inductive TableKind where
  /-- The first record stays. -/
  | dedup
  /-- The newest version stays. -/
  | upsert
deriving DecidableEq, Repr

namespace TableKind

/-- The name of a kind. -/
def name : TableKind → String
  | .dedup => "dedup"
  | .upsert => "upsert"

/-- The name under which failures of a partition are reported. -/
def managerName : TableKind → String
  | .dedup => "PartitionDedupMetadataManager"
  | .upsert => "PartitionUpsertMetadataManager"

end TableKind

/-- The settings of one partition of a table. -/
structure Settings where
  /-- The name of the table. -/
  table : String
  /-- The number of the partition. -/
  partition : UInt32
  kind : TableKind
  keyColumns : List String
  /-- The columns of versions, the most important one first. -/
  comparisonColumns : List String := []
  /-- How far behind the watermark a key may fall; not positive means for ever. -/
  ttl : Binary64 := Binary64.zero
  /-- The column that holds a record's time. -/
  timeColumn : Option String := none
  /-- The directory of the table's files. -/
  directory : Option String := none
  hash : KeyHash := .whole
deriving DecidableEq, Repr

/-- Why settings are refused. -/
inductive SettingsError where
  | missingKeyColumns (table : String)
  | missingComparisonColumns (table : String)
  | missingTimeColumn (table : String) (kind : TableKind)
  | timeColumnNotCompared (table column : String)
  | invalidTtl (table : String)
deriving DecidableEq, Repr

/-- The text of a refusal. -/
def SettingsError.message : SettingsError → String
  | .missingKeyColumns table => "primary key columns must be configured for table " ++ table
  | .missingComparisonColumns table =>
    "comparison columns must be configured for upsert table " ++ table
  | .missingTimeColumn table kind =>
    "when metadata TTL is configured, a metadata time column must be configured for "
      ++ kind.name ++ " table " ++ table
  | .timeColumnNotCompared table column =>
    "time column '" ++ column ++ "' of upsert table " ++ table ++ " is not a comparison column"
  | .invalidTtl table => "metadata TTL of table " ++ table ++ " is not a number"

namespace Settings

/-- Whether keys are dropped when they fall behind. -/
def ttlEnabled (s : Settings) : Bool := decide (Binary64.zero < s.ttl)

/-- A negative retention counts as none. -/
def clampTtl (ttl : Binary64) : Binary64 := if ttl < Binary64.zero then Binary64.zero else ttl

/-- The columns of an upsert table: there must be one, the time column is the first one
unless another is named, and it must be one of them. -/
def checkUpsert (s : Settings) : Except SettingsError Settings :=
  match s.comparisonColumns with
  | [] => .error (.missingComparisonColumns s.table)
  | first :: _ =>
    let column := s.timeColumn.getD first
    if column ∈ s.comparisonColumns then .ok { s with timeColumn := some column }
    else .error (.timeColumnNotCompared s.table column)

/-- The columns of a dedup table: without comparison columns, the time column is the only
one. -/
def fillDedup (s : Settings) : Settings :=
  if s.comparisonColumns.isEmpty then { s with comparisonColumns := s.timeColumn.toList } else s

/-- The settings with everything inferred filled in, or the first reason to refuse them. -/
def checked (s : Settings) : Except SettingsError Settings := do
  if s.ttl.isNaN then .error (.invalidTtl s.table)
  else if s.keyColumns.isEmpty then .error (.missingKeyColumns s.table)
  else
    let s := { s with ttl := clampTtl s.ttl }
    let s ← match s.kind with
      | .upsert => s.checkUpsert
      | .dedup => .ok s.fillDedup
    if s.ttlEnabled && s.timeColumn.isNone then .error (.missingTimeColumn s.table s.kind)
    else .ok s

end Settings

end PartitionKeys
