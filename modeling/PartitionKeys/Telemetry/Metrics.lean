/-
# Gauges and timers

A gauge holds the last number that was set for a partition; a timer counts the samples taken
for a table.  Without a registry nothing is kept.
-/
import PartitionKeys.Assoc
import PartitionKeys.Settings.Basic

namespace PartitionKeys

/-- The gauges and timers that have been written. -/
structure Registry where
  /-- The gauges by table, partition and name. -/
  gauges : Assoc (String × UInt32 × String) Nat := []
  /-- The number of samples by table and name. -/
  samples : Assoc (String × String) Nat := []
deriving DecidableEq, Repr

namespace Registry

/-- Sets a gauge. -/
def setGauge (r : Registry) (table : String) (partition : UInt32) (gauge : String)
    (value : Nat) : Registry :=
  { r with gauges := r.gauges.put (table, partition, gauge) value }

/-- The value of a gauge, if it was ever set. -/
def gauge? (r : Registry) (table : String) (partition : UInt32) (gauge : String) : Option Nat :=
  r.gauges.lookup (table, partition, gauge)

/-- The number of samples of a timer. -/
def sampleCount (r : Registry) (table timer : String) : Nat :=
  (r.samples.lookup (table, timer)).getD 0

/-- Takes a sample of a timer. -/
def recordSample (r : Registry) (table timer : String) : Registry :=
  { r with samples := r.samples.put (table, timer) (r.sampleCount table timer + 1) }

theorem gauge?_setGauge_self (r : Registry) (table : String) (partition : UInt32)
    (gauge : String) (value : Nat) :
    (r.setGauge table partition gauge value).gauge? table partition gauge = some value :=
  Assoc.lookup_put_self r.gauges _ value

theorem sampleCount_recordSample_self (r : Registry) (table timer : String) :
    (r.recordSample table timer).sampleCount table timer = r.sampleCount table timer + 1 := by
  simp only [sampleCount, recordSample, Assoc.lookup_put_self, Option.getD_some]

end Registry

/-- Where gauges and timers are written. -/
inductive Metrics where
  /-- Everything is dropped. -/
  | off
  | recorded (registry : Registry)
deriving DecidableEq, Repr

namespace Metrics

/-- Sets a gauge. -/
def setGauge (m : Metrics) (table : String) (partition : UInt32) (gauge : String)
    (value : Nat) : Metrics :=
  match m with
  | .off => .off
  | .recorded r => .recorded (r.setGauge table partition gauge value)

/-- Takes a sample of a timer. -/
def recordSample (m : Metrics) (table timer : String) : Metrics :=
  match m with
  | .off => .off
  | .recorded r => .recorded (r.recordSample table timer)

/-- The value of a gauge, if it was ever set. -/
def gauge? (m : Metrics) (table : String) (partition : UInt32) (gauge : String) : Option Nat :=
  match m with
  | .off => none
  | .recorded r => r.gauge? table partition gauge

/-- The number of samples of a timer. -/
def sampleCount (m : Metrics) (table timer : String) : Nat :=
  match m with
  | .off => 0
  | .recorded r => r.sampleCount table timer

end Metrics

namespace TableKind

/-- The gauge with the number of keys of a partition. -/
def keyGauge : TableKind → String
  | .dedup => "partmeta_dedup_primary_keys_count"
  | .upsert => "partmeta_upsert_primary_keys_count"

/-- The timer of the removal of expired keys. -/
def sweepTimer : TableKind → String
  | .dedup => "partmeta_dedup_remove_expired_primary_keys_time_ms"
  | .upsert => "partmeta_upsert_remove_expired_primary_keys_time_ms"

end TableKind

end PartitionKeys
