/-
# Taking in single records

A record of a segment that is still growing is offered by the per-column rule.  Its time
moves the watermark first; a record that is expired even then is dropped.
-/
import PartitionKeys.Partition.Basic

namespace PartitionKeys.Partition

/-- The result of taking in a record. -/
abbrev RecordResult := Except Failure RecordOutcome

/-- Looks at the time of a record: the reason to skip it, if it is expired. -/
def checkRecordTime (p : Partition) (record : Record) : Option SkipReason × Partition :=
  if p.settings.ttlEnabled then
    match p.settings.timeColumn.bind record.version.time? with
    | none => (none, p)
    | some time =>
      let p := p.observe time
      if time < p.floor then (some (.outOfTtl time p.floor), p) else (none, p)
  else (none, p)

/-- Offers a record to the index. -/
def offerRecord (p : Partition) (segment : SegmentId) (record : Record) :
    RecordResult × Partition :=
  let entry := Entry.of ⟨segment, record.doc⟩ record.version p.settings.timeColumn
  match p.index.apply (p.keyOf record.key) entry (p.terms .perColumn none) with
  | (.error e, index) => (.error (.index e), { p with index })
  | (.ok update, index) =>
    let p := { p with index }
    let p :=
      if update.outcome = .rejected ∧ p.settings.kind = .dedup then
        p.report (.duplicateKey segment.name record.key.display)
      else p
    (.ok (.indexed update.outcome), p.refreshGauge)

/-- Takes in a record of a growing segment. -/
def ingest (p : Partition) (segment : SegmentId) (record : Record) : RecordResult × Partition :=
  match p.gate.enter? with
  | none =>
    (.ok (.skipped .stopped), p.report (.skippedRecord segment.name record.key.display))
  | some gate =>
    match checkRecordTime { p with gate } record with
    | (some reason, p) => (.ok (.skipped reason), p.leave)
    | (none, p) =>
      let (result, p) := p.offerRecord segment record
      (result, p.leave)

end PartitionKeys.Partition
