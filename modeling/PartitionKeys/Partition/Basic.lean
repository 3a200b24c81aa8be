/-
# A partition

A partition tracks the keys of one partition of a table over its segments: it owns the index,
the watermark with its store, the gate, and what is reported to the outside.  This module
sets a partition up and holds what all operations share.
-/
import PartitionKeys.Partition.Outcome
import PartitionKeys.Telemetry.Metrics

namespace PartitionKeys

/-- The keys of one partition of a table. -/
structure Partition where
  /-- Settings that have been checked. -/
  settings : Settings
  index : KeyIndex
  watermark : Watermark
  store : WatermarkStore
  metrics : Metrics
  gate : Gate
  /-- What has been reported, oldest first. -/
  log : List Event
deriving DecidableEq, Repr

/-- Which store a partition gets. -/
inductive StoreChoice where
  /-- This one. -/
  | given (store : WatermarkStore)
  /-- A file in the table's directory, or memory if the table has none. -/
  | standard (files : FileSystem)
deriving DecidableEq, Repr

/-- The store that a choice stands for. -/
def StoreChoice.store (choice : StoreChoice) (s : Settings) : WatermarkStore :=
  match choice, s.watermarkPath with
  | .given store, _ => store
  | .standard files, some path => { medium := .file ⟨Path.ofText path⟩ files }
  | .standard _, none => { medium := .memory {} }

namespace Partition

/-- Adds an event to the log. -/
def report (p : Partition) (event : Event) : Partition := { p with log := p.log ++ [event] }

/-- The first watermark of a partition.  With retention the store is asked, and a failure
counts as unset; without, whatever the store holds is forgotten. -/
def firstWatermark (s : Settings) (store : WatermarkStore) :
    Watermark × WatermarkStore × List Event :=
  if s.ttlEnabled then
    match store.load Watermark.unset.time with
    | .ok time => (⟨time⟩, store, [])
    | .error _ => (.unset, store, [.loadFailed])
  else
    match store.delete with
    | (.ok (), store) => (.unset, store, [])
    | (.error _, store) => (.unset, store, [.deleteFailed])

/-- Sets a partition up with an index, a store and a place for its gauges. -/
def build (settings : Settings) (index : KeyIndex) (choice : StoreChoice) (metrics : Metrics) :
    Except Failure Partition :=
  match settings.checked with
  | .error e => .error (.settings e)
  | .ok s =>
    let (watermark, store, events) := firstWatermark s (choice.store s)
    .ok {
      settings := s
      index, watermark, store, metrics
      gate := {}
      log := .opened s.table s.partition s.kind :: events }

/-- The number of keys. -/
def size (p : Partition) : Nat := p.index.size

/-- The time below which keys are expired. -/
def floor (p : Partition) : Binary64 := p.watermark.floor p.settings.ttl

/-- Takes a time into account. -/
def observe (p : Partition) (time : Binary64) : Partition :=
  { p with watermark := p.watermark.observe time }

/-- Sets the gauge of the number of keys. -/
def setGauge (p : Partition) (value : Nat) : Partition :=
  { p with
    metrics := p.metrics.setGauge p.settings.table p.settings.partition
      p.settings.kind.keyGauge value }

/-- Sets the gauge to the number of keys held now. -/
def refreshGauge (p : Partition) : Partition := p.setGauge p.size

/-- Lets the operation that is done out of the gate. -/
def leave (p : Partition) : Partition := { p with gate := p.gate.leave }

/-- The key under which the entry of a primary key is held. -/
def keyOf (p : Partition) (key : PrimaryKey) : IndexKey := p.settings.hash.apply key

/-- The terms on which the partition offers records to its index now. -/
def terms (p : Partition) (rule : ComparisonRule) (replacing : Option SegmentId) : Terms where
  kind := p.settings.kind
  rule
  comparisonColumns := p.settings.comparisonColumns
  timeColumn := p.settings.timeColumn
  replacing
  floor := if p.settings.ttlEnabled then some p.floor else none

/-- What a partition asks of the readers of segments. -/
def readRequest (p : Partition) : ReadRequest :=
  ⟨p.settings.keyColumns, p.settings.comparisonColumns⟩

end Partition

end PartitionKeys
