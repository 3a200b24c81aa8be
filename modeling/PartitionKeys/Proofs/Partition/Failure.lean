/-
# Failed operations leave no trace

An operation that fails may have written any number of records before.  Whatever it was that
failed, every key has the entry from before the operation, and the gate counts the same
operations as before.  A pass that was refused is undone write by write, and every write that
was journaled is restored and reported.
-/
import PartitionKeys.Proofs.Partition.Ingest

namespace PartitionKeys

namespace Partition

/-- Undoing the refused pass of an operation restores every write. -/
lemma rollBack_pass? {p : Partition} {change : SegmentChange} {answer : Option IndexError}
    {pass : Pass} (h : p.pass? change = some (answer, pass)) :
    (pass.index.rollBack pass.journal).1 = pass.journal.length ∧
      (pass.index.rollBack pass.journal).2.get? = p.index.get? := by
  obtain ⟨o, records, hrun⟩ := pass?_run h
  have hback := KeyIndex.rollBack_journal o records p.index
  rw [← hrun] at hback
  exact hback

/-- The second half of an operation, if it fails: the entries are the same, and of a refused
pass every write was restored. -/
lemma perform_error {p : Partition} {change : SegmentChange} {e : Failure}
    (h : (p.perform change).1 = .error e) :
    (p.perform change).2.index.get? = p.index.get? ∧
      (p.perform change).2.log =
        match p.pass? change with
        | some (_, pass) =>
          p.log ++ pass.events ++ [.rolledBack change.target.name pass.journal.length]
        | none => p.log := by
  have hperformed := p.perform_performed change
  generalize (p.perform change).1 = result at h hperformed
  generalize (p.perform change).2.index = index at hperformed ⊢
  generalize (p.perform change).2.log = log at hperformed ⊢
  cases hperformed with
  | unread e hpass =>
    rw [hpass]
    exact ⟨rfl, rfl⟩
  | refused e pass hpass =>
    obtain ⟨hcount, hentries⟩ := rollBack_pass? hpass
    rw [hpass, hcount]
    exact ⟨hentries, rfl⟩
  | removed | added | replaced => cases h

/-- A failed operation on segments, both halves at once. -/
lemma change_error {p : Partition} {change : SegmentChange} {e : Failure}
    (h : (p.change change).1 = .error e) :
    (p.change change).2.index.get? = p.index.get? ∧
      ∀ q, p.start change = (none, q) →
        (p.change change).2.log =
          match q.pass? change with
          | some (_, pass) =>
            p.log ++ pass.events ++ [.rolledBack change.target.name pass.journal.length]
          | none => p.log := by
  rcases hstart : p.start change with ⟨_ | result, q⟩
  · rw [change_of_start_none hstart] at h ⊢
    obtain ⟨watermark, gate, -, hq⟩ := start_none hstart
    have hperform : ∃ e, (q.perform change).1 = .error e := by
      cases hresult : (q.perform change).1 with
      | error e => exact ⟨e, rfl⟩
      | ok outcome =>
        rw [hresult] at h
        cases h
    obtain ⟨e, hperform⟩ := hperform
    obtain ⟨hentries, hlog⟩ := perform_error hperform
    refine ⟨?_, fun q' hq' => ?_⟩
    · rw [← show q.index = p.index by rw [hq]]
      exact hentries
    · cases hq'
      rw [← show q.log = p.log by rw [hq]]
      exact hlog
  · rw [change_of_start_some hstart]
    obtain ⟨⟨watermark, log, hq⟩, -⟩ := start_some hstart
    exact ⟨by rw [hq], fun q' hq' => by cases hq'⟩

/-- A record that could not be taken in. -/
lemma ingest_error {p : Partition} {segment : SegmentId} {record : Record} {e : Failure}
    (h : (p.ingest segment record).1 = .error e) :
    (p.ingest segment record).2.index.get? = p.index.get? := by
  have hingested := p.ingest_ingested segment record
  generalize (p.ingest segment record).1 = result at h hingested
  generalize (p.ingest segment record).2.index = index at hingested ⊢
  cases hingested with
  | skipped | indexed => cases h
  | refused watermark e happly =>
    have hoffered := p.index.apply_offered (p.keyOf record.key) (p.recordEntry segment record)
      ({ p with watermark }.terms .perColumn none)
    unfold applyRecord at happly ⊢
    rw [happly] at hoffered
    generalize (p.index.apply _ _ _).2.get? = entries at hoffered ⊢
    cases hoffered
    rfl

/-! ## The result -/

/-- An operation on segments, or taking in a record, that fails leaves no trace: every key has
the entry it had before, and the gate is as before.  If the failure is a record that the index
refused, then as many writes are reported as restored as had been journaled; if nothing was
offered, nothing is reported. -/
theorem failure_leaves_no_trace (p : Partition) :
    (∀ change e, (p.change change).1 = .error e →
      (∀ key, (p.change change).2.index.get? key = p.index.get? key) ∧
      (p.change change).2.gate = p.gate ∧
      ∀ q, p.start change = (none, q) →
        (p.change change).2.log =
          match q.pass? change with
          | some (_, pass) =>
            p.log ++ pass.events ++ [.rolledBack change.target.name pass.journal.length]
          | none => p.log) ∧
    ∀ segment record e, (p.ingest segment record).1 = .error e →
      (∀ key, (p.ingest segment record).2.index.get? key = p.index.get? key) ∧
      (p.ingest segment record).2.gate = p.gate := by
  refine ⟨fun change e h => ?_, fun segment record e h => ?_⟩
  · obtain ⟨hentries, hlog⟩ := change_error h
    obtain ⟨_, _, _, _, hframe⟩ := p.change_frame change
    exact ⟨congrFun hentries, by rw [hframe], hlog⟩
  · obtain ⟨_, _, _, _, hframe⟩ := p.ingest_frame segment record
    exact ⟨congrFun (ingest_error h), by rw [hframe]⟩

end Partition

/-! ## A segment with a record that is refused -/

namespace Sample

/-- A table that keeps the newest version of each key, by one column. -/
def settings : Settings where
  table := "orders"
  partition := 0
  kind := .upsert
  keyColumns := ["id"]
  comparisonColumns := ["at"]
  timeColumn := some "at"

/-- A partition of this table. -/
def partition (index : KeyIndex) : Partition where
  settings
  index
  watermark := .unset
  store := { medium := .memory {} }
  metrics := .off
  gate := {}
  log := []

/-- A record with a number as its key. -/
def record (key : Int64) (doc : UInt32) (at_ : Value) : Record :=
  ⟨⟨[.int key]⟩, doc, ⟨[("at", .full at_)]⟩⟩

/-- The key under which such a record is held. -/
def key (key : Int64) : IndexKey := .whole ⟨[.int key]⟩

/-- A sealed segment of such records. -/
def segment (number : Nat) (records : List Record) : Segment :=
  .ofRecords ⟨number, "s" ++ toString number⟩ .immutable records

/-- A partition that holds key 1. -/
def started : Partition :=
  ((partition { backend := .sorted {} }).change (.add (segment 1 [record 1 0 (.int 5)]))).2

/-- A segment that writes key 1 twice and key 2 once before its last record, whose time is a
text. -/
def torn : Segment :=
  segment 2 [record 1 0 (.int 6), record 2 1 (.int 1), record 1 0 (.int 7),
    record 1 2 (.string "now")]

end Sample

open Sample in
/-- Adding the torn segment fails and restores three writes; taking in its last record alone
fails as well. -/
theorem failure_leaves_no_trace_torn :
    (∃ e, (started.change (.add torn)).1 = .error e) ∧
      (∀ key, (started.change (.add torn)).2.index.get? key = started.index.get? key) ∧
      (started.change (.add torn)).2.gate = started.gate ∧
      (started.change (.add torn)).2.log = started.log ++ [.rolledBack "s2" 3] ∧
      (∃ e, (started.ingest ⟨3, "s3"⟩ (record 1 2 (.string "now"))).1 = .error e) ∧
      ∀ key, (started.ingest ⟨3, "s3"⟩ (record 1 2 (.string "now"))).2.index.get? key =
        started.index.get? key := by
  obtain ⟨e, hchange⟩ : ∃ e, (started.change (.add torn)).1 = .error e := ⟨_, rfl⟩
  obtain ⟨f, hingest⟩ :
      ∃ e, (started.ingest ⟨3, "s3"⟩ (record 1 2 (.string "now"))).1 = .error e := ⟨_, rfl⟩
  obtain ⟨hentries, hgate, hlog⟩ := started.failure_leaves_no_trace.1 _ e hchange
  have hkept := started.failure_leaves_no_trace.2 _ _ f hingest
  exact ⟨⟨e, hchange⟩, hentries, hgate, hlog _ rfl, ⟨f, hingest⟩, hkept.1⟩

end PartitionKeys
