/-
# What taking in a record does to a partition

A record is skipped, or it is offered to the index once, on the terms that hold after its own
time has moved the watermark.  Whatever happens, the gate is as before.
-/
import PartitionKeys.Partition.Ingest
import PartitionKeys.Proofs.Partition.Change

namespace PartitionKeys.Partition

/-- The entry that is offered for a single record. -/
def recordEntry (p : Partition) (segment : SegmentId) (record : Record) : Entry :=
  .of ⟨segment, record.doc⟩ record.version p.settings.timeColumn

/-- The call of the index for a single record, under a watermark. -/
def applyRecord (p : Partition) (watermark : Watermark) (segment : SegmentId) (record : Record) :
    Except IndexError Update × KeyIndex :=
  p.index.apply (p.keyOf record.key) (p.recordEntry segment record)
    ({ p with watermark }.terms .perColumn none)

/-- How taking in a record ends, and the index that it leaves. -/
inductive Ingested (p : Partition) (segment : SegmentId) (record : Record) :
    RecordResult → KeyIndex → Prop
  | skipped (reason : SkipReason) : Ingested p segment record (.ok (.skipped reason)) p.index
  | refused (watermark : Watermark) (e : IndexError)
    (h : (p.applyRecord watermark segment record).1 = .error e) :
    Ingested p segment record (.error (.index e)) (p.applyRecord watermark segment record).2
  | indexed (watermark : Watermark) (update : Update)
    (h : (p.applyRecord watermark segment record).1 = .ok update) :
    Ingested p segment record (.ok (.indexed update.outcome))
      (p.applyRecord watermark segment record).2

lemma checkRecordTime_frame (p : Partition) (record : Record) :
    ∃ watermark, (p.checkRecordTime record).2 = { p with watermark } := by
  unfold checkRecordTime
  split
  · split
    · exact ⟨p.watermark, rfl⟩
    · dsimp only
      split <;> exact ⟨_, rfl⟩
  · exact ⟨p.watermark, rfl⟩

/-- Offering a single record changes the index, the gauges and the log. -/
lemma offerRecord_frame (p : Partition) (segment : SegmentId) (record : Record) :
    ∃ index metrics log, (p.offerRecord segment record).2 = { p with index, metrics, log } := by
  unfold offerRecord
  dsimp only
  split
  · exact ⟨_, _, _, rfl⟩
  · split <;> exact ⟨_, _, _, rfl⟩

/-- Of what the index answers to a single record, only the outcome is passed on. -/
lemma offerRecord_eq (p : Partition) (segment : SegmentId) (record : Record) :
    (p.offerRecord segment record).1 =
        (((p.applyRecord p.watermark segment record).1.map Update.outcome).map
          RecordOutcome.indexed).mapError Failure.index ∧
      (p.offerRecord segment record).2.index = (p.applyRecord p.watermark segment record).2 := by
  have hcall : p.applyRecord p.watermark segment record = p.index.apply (p.keyOf record.key)
      (.of ⟨segment, record.doc⟩ record.version p.settings.timeColumn)
      (p.terms .perColumn none) := rfl
  unfold offerRecord
  dsimp only
  rw [← hcall]
  rcases p.applyRecord p.watermark segment record with ⟨e | update, index⟩
  · exact ⟨rfl, rfl⟩
  · dsimp only
    split <;> exact ⟨rfl, rfl⟩

/-- Inside the gate, nothing looks at it. -/
lemma checkRecordTime_gate (p : Partition) (gate : Gate) (record : Record) :
    checkRecordTime { p with gate } record =
      ((p.checkRecordTime record).1, { (p.checkRecordTime record).2 with gate }) := by
  unfold checkRecordTime
  dsimp only
  split
  · cases p.settings.timeColumn.bind record.version.time? with
    | none => rfl
    | some time =>
      by_cases hbelow : time < (p.observe time).floor
      · have hbelow' : time < (observe { p with gate } time).floor := hbelow
        dsimp only
        rw [if_pos hbelow, if_pos hbelow']
        rfl
      · have hbelow' : ¬time < (observe { p with gate } time).floor := hbelow
        dsimp only
        rw [if_neg hbelow, if_neg hbelow']
        rfl
  · rfl

lemma offerRecord_gate (p : Partition) (gate : Gate) (segment : SegmentId) (record : Record) :
    offerRecord { p with gate } segment record =
      ((p.offerRecord segment record).1, { (p.offerRecord segment record).2 with gate }) := by
  have hterms : terms { p with gate } .perColumn none = p.terms .perColumn none := rfl
  have hkey : keyOf { p with gate } record.key = p.keyOf record.key := rfl
  unfold offerRecord
  dsimp only
  rw [hterms, hkey]
  split
  · rfl
  · split <;> rfl

/-- What becomes of a record that is let in. -/
lemma ingest_of_enter {p : Partition} {gate : Gate} (inside : p.gate.enter? = some gate)
    (segment : SegmentId) (record : Record) :
    p.ingest segment record =
      match p.checkRecordTime record with
      | (some reason, q) => (.ok (.skipped reason), q)
      | (none, q) => q.offerRecord segment record := by
  have hleave := Gate.leave_of_enter? inside
  obtain ⟨watermark, hframe⟩ := checkRecordTime_frame p record
  unfold ingest
  rw [inside]
  dsimp only
  rw [checkRecordTime_gate]
  rcases hcheck : p.checkRecordTime record with ⟨_ | reason, q⟩
  · rw [hcheck] at hframe
    obtain rfl : q = { p with watermark } := hframe
    obtain ⟨index, metrics, log, hoffer⟩ := offerRecord_frame { p with watermark } segment record
    dsimp only
    rw [offerRecord_gate { p with watermark }]
    generalize offerRecord { p with watermark } segment record = offered at hoffer ⊢
    obtain ⟨result, q⟩ := offered
    obtain rfl : q = { p with watermark, index, metrics, log } := hoffer
    simp only [leave, hleave]
  · rw [hcheck] at hframe
    obtain rfl : q = { p with watermark } := hframe
    simp only [leave, hleave]

/-- The ways that taking in a record can go, with the partition that each one leaves. -/
inductive IngestedTo (p : Partition) (segment : SegmentId) (record : Record) :
    RecordResult → Partition → Prop
  | stopped (log : List Event) (outside : p.gate.enter? = none) :
    IngestedTo p segment record (.ok (.skipped .stopped)) { p with log }
  | expired (gate : Gate) (watermark : Watermark) (reason : SkipReason)
    (inside : p.gate.enter? = some gate)
    (check : p.checkRecordTime record = (some reason, { p with watermark })) :
    IngestedTo p segment record (.ok (.skipped reason)) { p with watermark }
  | offered (gate : Gate) (watermark : Watermark) (inside : p.gate.enter? = some gate)
    (check : p.checkRecordTime record = (none, { p with watermark })) :
    IngestedTo p segment record (offerRecord { p with watermark } segment record).1
      (offerRecord { p with watermark } segment record).2

lemma ingest_ingestedTo (p : Partition) (segment : SegmentId) (record : Record) :
    IngestedTo p segment record (p.ingest segment record).1 (p.ingest segment record).2 := by
  cases hgate : p.gate.enter? with
  | none =>
    rw [ingest, hgate]
    exact .stopped _ hgate
  | some gate =>
    obtain ⟨watermark, hframe⟩ := checkRecordTime_frame p record
    rw [ingest_of_enter hgate]
    rcases hcheck : p.checkRecordTime record with ⟨_ | reason, q⟩
    · rw [hcheck] at hframe
      obtain rfl : q = { p with watermark } := hframe
      exact .offered gate watermark hgate hcheck
    · rw [hcheck] at hframe
      obtain rfl : q = { p with watermark } := hframe
      exact .expired gate watermark reason hgate hcheck

lemma offerRecord_ingested (p : Partition) (segment : SegmentId) (record : Record) :
    Ingested p segment record (p.offerRecord segment record).1
      (p.offerRecord segment record).2.index := by
  obtain ⟨hresult, hindex⟩ := p.offerRecord_eq segment record
  rw [hresult, hindex]
  cases happly : (p.applyRecord p.watermark segment record).1 with
  | error e => exact .refused p.watermark e happly
  | ok update => exact .indexed p.watermark update happly

/-- The watermark from before does not matter for what becomes of the record. -/
lemma Ingested.of_frame {p : Partition} {watermark : Watermark} {segment : SegmentId}
    {record : Record} {result : RecordResult} {index : KeyIndex}
    (h : Ingested { p with watermark } segment record result index) :
    Ingested p segment record result index := by
  cases h with
  | skipped reason => exact .skipped reason
  | refused watermark e h => exact .refused watermark e h
  | indexed watermark update h => exact .indexed watermark update h

lemma IngestedTo.ingested {p q : Partition} {segment : SegmentId} {record : Record}
    {result : RecordResult} (h : IngestedTo p segment record result q) :
    Ingested p segment record result q.index := by
  cases h with
  | stopped => exact .skipped _
  | expired gate watermark reason => exact .skipped reason
  | offered gate watermark => exact (offerRecord_ingested { p with watermark } _ _).of_frame

lemma ingest_ingested (p : Partition) (segment : SegmentId) (record : Record) :
    Ingested p segment record (p.ingest segment record).1 (p.ingest segment record).2.index :=
  (p.ingest_ingestedTo segment record).ingested

/-- Taking in a record moves the watermark and changes the index, the gauges and the log; the
gate is as before. -/
lemma ingest_frame (p : Partition) (segment : SegmentId) (record : Record) :
    ∃ index watermark metrics log,
      (p.ingest segment record).2 = { p with index, watermark, metrics, log } := by
  have hdone := p.ingest_ingestedTo segment record
  generalize (p.ingest segment record).1 = result at hdone
  generalize (p.ingest segment record).2 = q at hdone ⊢
  cases hdone with
  | stopped log => exact ⟨p.index, p.watermark, p.metrics, log, rfl⟩
  | expired gate watermark => exact ⟨p.index, watermark, p.metrics, p.log, rfl⟩
  | offered gate watermark =>
    obtain ⟨index, metrics, log, hoffer⟩ := offerRecord_frame { p with watermark } segment record
    exact ⟨index, watermark, metrics, log, hoffer⟩

/-- Without retention no record is too old. -/
lemma checkRecordTime_lasting {p : Partition} (lasting : p.settings.ttlEnabled = false)
    (record : Record) : p.checkRecordTime record = (none, p) := by
  simp [checkRecordTime, lasting]

/-- Without retention a record that is let in is always offered. -/
lemma ingest_lasting {p : Partition} (lasting : p.settings.ttlEnabled = false) {gate : Gate}
    (henter : p.gate.enter? = some gate) (segment : SegmentId) (record : Record) :
    (p.ingest segment record).1 =
        (((p.applyRecord p.watermark segment record).1.map Update.outcome).map
          RecordOutcome.indexed).mapError Failure.index ∧
      (p.ingest segment record).2.index = (p.applyRecord p.watermark segment record).2 := by
  rw [ingest_of_enter henter, checkRecordTime_lasting lasting]
  exact p.offerRecord_eq segment record

end PartitionKeys.Partition
