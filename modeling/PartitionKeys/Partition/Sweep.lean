/-
# Dropping expired keys

A sweep drops every key whose time is below the floor and persists the watermark.
-/
import PartitionKeys.Partition.Basic

namespace PartitionKeys.Partition

/-- The result of a sweep. -/
abbrev SweepResult := Except Failure SweepOutcome

/-- Sweeps the index and persists the watermark; if that fails, the keys are gone all the
same. -/
def sweepIndex (p : Partition) : SweepResult × Partition :=
  let floor := p.floor
  let (removed, index) := p.index.sweep floor
  let p := { p with index }
  match p.store.persist p.watermark.time with
  | (.error e, store) => (.error (.store e), { p with store })
  | (.ok (), store) =>
    let p := { p with
      store
      metrics := p.metrics.recordSample p.settings.table p.settings.kind.sweepTimer }
    (.ok (.swept removed floor), p.refreshGauge.report (.swept removed floor))

/-- Drops expired keys, if keys expire at all. -/
def sweep (p : Partition) : SweepResult × Partition :=
  if p.settings.ttlEnabled then
    match p.gate.enter? with
    | none => (.ok (.skipped .stopped), p.report .skippedSweep)
    | some gate =>
      let (result, p) := sweepIndex { p with gate }
      (result, p.leave)
  else (.ok (.skipped .ttlDisabled), p)

end PartitionKeys.Partition
