/-
# Adding, replacing and removing segments

An operation on segments has two halves.  *Admission* refuses what needs no reading: empty
and unsupported segments, a stopped partition, and segments whose records are all expired.
*Completion* reads the segments, offers the records of the new segment to the index one by
one, and drops what the old one still owns.  If the index refuses a record, the writes made
so far are undone, newest first; a key that has been written since is left alone.

Other operations may run between the two halves, and between any two calls of the index.
-/
import PartitionKeys.Partition.Basic

namespace PartitionKeys

/-- An operation on segments. -/
inductive SegmentChange where
  | add (segment : Segment)
  | replace (old new : Segment)
  | remove (segment : Segment)

namespace SegmentChange

/-- The segment that is looked at first: the new one, or the one to be removed. -/
def target : SegmentChange → Segment
  | .add segment | .replace _ segment | .remove segment => segment

/-- The kind of operation. -/
def action : SegmentChange → SegmentAction
  | .add _ => .adding
  | .replace .. => .replacing
  | .remove _ => .removing

/-- The segments of the operation, for display. -/
def subject : SegmentChange → Subject
  | .add segment | .remove segment => .one segment.name
  | .replace old new => .replacement old.name new.name

/-- The segment that is being replaced. -/
def old? : SegmentChange → Option Segment
  | .replace old _ => some old
  | _ => none

/-- Whether the operation brings records in; only sealed segments may do so. -/
def bringsRecords : SegmentChange → Bool
  | .remove _ => false
  | _ => true

end SegmentChange

/-- The result of an operation on segments. -/
abbrev SegmentResult := Except Failure SegmentOutcome

namespace Partition

/-- A failure with the operation around it. -/
def operationFailure (p : Partition) (change : SegmentChange) (cause : Failure) : Failure :=
  .operation change.action change.subject.label p.settings.table p.settings.kind cause

/-- The largest time of a segment. -/
def maxTime (p : Partition) (segment : Segment) : Except Failure Binary64 :=
  match p.settings.timeColumn with
  | none => .error (.settings (.missingTimeColumn p.settings.table p.settings.kind))
  | some column => (segment.maxTime column).mapError .reading

/-- The event of a segment that is skipped as expired. -/
def expiredEvent (p : Partition) (change : SegmentChange) (time : Binary64) : Event :=
  if change.bringsRecords then
    .skippedExpired change.target.name time p.settings.ttl change.old?.isSome
  else .skippedExpiredRemoval change.target.name time p.settings.ttl

/-- Looks at the largest time of the segment.  New records move the watermark first; if even
the newest one is expired, the operation ends here. -/
def checkTime (p : Partition) (change : SegmentChange) : Option SegmentResult × Partition :=
  if p.settings.ttlEnabled then
    match p.maxTime change.target with
    | .error e => (some (.error e), p)
    | .ok time =>
      let p := if change.bringsRecords then p.observe time else p
      if time < p.floor then
        (some (.ok (.skipped (.outOfTtl time p.floor))), p.report (p.expiredEvent change time))
      else (none, p)
  else (none, p)

/-- Ends an operation: failures get the operation around them, and the gate is passed. -/
def conclude (change : SegmentChange) (result : SegmentResult) (p : Partition) :
    SegmentResult × Partition :=
  (result.mapError (p.operationFailure change), p.leave)

/-- The first half of an operation: its result, or `none` if it is inside the gate now. -/
def start (p : Partition) (change : SegmentChange) : Option SegmentResult × Partition :=
  if change.target.kind = .empty then
    (some (.ok (.skipped .emptySegment)), p.report (.skippedEmpty change.action change.subject))
  else if change.bringsRecords ∧ change.target.kind ≠ .immutable then
    (some (.error (.unsupportedSegment change.target.name change.target.kind p.settings.table)), p)
  else
    match p.gate.enter? with
    | none =>
      (some (.ok (.skipped .stopped)), p.report (.skippedStopped change.action change.subject))
    | some gate =>
      match checkTime { p with gate } change with
      | (none, p) => (none, p)
      | (some result, p) =>
        let (result, p) := conclude change result p
        (some result, p)

/-! ## Offering the records of a segment -/

end Partition

/-- A write that can be undone. -/
structure Write where
  key : IndexKey
  written : Location
  displaced : Option Entry
deriving DecidableEq, Repr

/-- How the records of a segment are offered. -/
structure Offering where
  hash : KeyHash
  terms : Terms
  segment : SegmentId
deriving DecidableEq, Repr

namespace Offering

/-- The location of a record of the segment. -/
def location (o : Offering) (record : Record) : Location := ⟨o.segment, record.doc⟩

/-- The key and the entry to be offered for a record. -/
def entry (o : Offering) (record : Record) : IndexKey × Entry :=
  (o.hash.apply record.key, .of (o.location record) record.version o.terms.timeColumn)

end Offering

/-- The state of offering the records of a segment one by one. -/
structure Pass where
  index : KeyIndex
  /-- The writes made so far, newest first. -/
  journal : List Write := []
  counts : Counts := {}
  /-- The events so far, oldest first. -/
  events : List Event := []

namespace Pass

/-- Takes note of a record that the index has accepted or turned away. -/
def note (pass : Pass) (o : Offering) (record : Record) (update : Update) : Pass :=
  let (key, entry) := o.entry record
  let pass := { pass with counts := pass.counts.record update.outcome }
  match update.outcome with
  | .rejected =>
    match o.terms.kind with
    | .dedup =>
      { pass with
        events := pass.events ++ [.duplicateKey o.segment.name record.key.display] }
    | .upsert => pass
  | _ => { pass with journal := ⟨key, entry.location, update.displaced⟩ :: pass.journal }

/-- Offers records in their order, up to the first one that the index refuses. -/
def run (o : Offering) : List Record → Pass → Option IndexError × Pass
  | [], pass => (none, pass)
  | record :: rest, pass =>
    let (key, entry) := o.entry record
    match pass.index.apply key entry o.terms with
    | (.error e, index) => (some e, { pass with index })
    | (.ok update, index) => run o rest (note { pass with index } o record update)

/-- Offering records in two goes is the same as in one. -/
theorem run_append (o : Offering) (first rest : List Record) (pass : Pass) :
    run o (first ++ rest) pass =
      match run o first pass with
      | (some e, pass) => (some e, pass)
      | (none, pass) => run o rest pass := by
  induction first generalizing pass with
  | nil => rfl
  | cons record first ih =>
    simp only [List.cons_append, run]
    split
    · rfl
    · exact ih _

end Pass

namespace KeyIndex

/-- Undoes writes, the first of the list first, and counts those that could be undone. -/
def rollBack : List Write → KeyIndex → Nat × KeyIndex
  | [], i => (0, i)
  | write :: rest, i =>
    let (restored, i) := i.restore write.key write.written write.displaced
    let (count, i) := rollBack rest i
    (count + restored.toNat, i)

theorem rollBack_append (first rest : List Write) (i : KeyIndex) :
    rollBack (first ++ rest) i =
      ((rollBack rest (rollBack first i).2).1 + (rollBack first i).1,
        (rollBack rest (rollBack first i).2).2) := by
  induction first generalizing i with
  | nil => rfl
  | cons write first ih =>
    simp only [List.cons_append, rollBack, ih]
    rw [Nat.add_assoc]

/-- Drops the keys of records that are still at their locations in a segment, and counts
them. -/
def removeOwned (hash : KeyHash) (segment : SegmentId) : List Record → KeyIndex → Nat × KeyIndex
  | [], i => (0, i)
  | record :: rest, i =>
    let (removed, i) := i.remove (hash.apply record.key) ⟨segment, record.doc⟩
    let (count, i) := removeOwned hash segment rest i
    (count + removed.toNat, i)

theorem removeOwned_append (hash : KeyHash) (segment : SegmentId) (first rest : List Record)
    (i : KeyIndex) :
    removeOwned hash segment (first ++ rest) i =
      ((removeOwned hash segment rest (removeOwned hash segment first i).2).1
          + (removeOwned hash segment first i).1,
        (removeOwned hash segment rest (removeOwned hash segment first i).2).2) := by
  induction first generalizing i with
  | nil => rfl
  | cons record first ih =>
    simp only [List.cons_append, removeOwned, ih]
    rw [Nat.add_assoc]

end KeyIndex

namespace Partition

/-- The records of a segment. -/
def readAll (p : Partition) (segment : Segment) : Except Failure (List Record) :=
  (segment.read p.readRequest).mapError .reading

/-- The records of the segment that is being replaced, with its identity. -/
def readOld (p : Partition) : Option Segment → Except Failure (Option (SegmentId × List Record))
  | none => .ok none
  | some old => do
    let records ← p.readAll old
    .ok (some (old.id, records))

/-- Undoes the writes of a pass that was refused. -/
def undo (p : Partition) (segment : Segment) (pass : Pass) : Partition :=
  let (restored, index) := pass.index.rollBack pass.journal
  ({ p with index }.report (.rolledBack segment.name restored)).refreshGauge

/-- Drops what the replaced segment still owns after the new records have been offered. -/
def finishPass (p : Partition) (old : Option (SegmentId × List Record)) (pass : Pass) :
    Counts × Partition :=
  match old with
  | none => (pass.counts, { p with index := pass.index }.refreshGauge)
  | some (segment, records) =>
    let (removed, index) := pass.index.removeOwned p.settings.hash segment records
    ({ pass.counts with removed }, { p with index }.refreshGauge)

/-- Offers the records of a new segment, in place of those of an old one if there is one. -/
def offerRecords (p : Partition) (segment : Segment) (old : Option (SegmentId × List Record))
    (records : List Record) : SegmentResult × Partition :=
  let offering : Offering :=
    ⟨p.settings.hash, p.terms .sealed (old.map Prod.fst), segment.id⟩
  match Pass.run offering records { index := p.index } with
  | (some e, pass) =>
    (.error (.index e), undo { p with log := p.log ++ pass.events } segment pass)
  | (none, pass) =>
    let (counts, p) := finishPass { p with log := p.log ++ pass.events } old pass
    (.ok (.applied counts), p)

/-- Reads the segments of an operation and changes the index. -/
def perform (p : Partition) (change : SegmentChange) : SegmentResult × Partition :=
  match p.readAll change.target with
  | .error e => (.error e, p)
  | .ok records =>
    match change with
    | .remove segment =>
      let (removed, index) := p.index.removeOwned p.settings.hash segment.id records
      (.ok (.applied { removed }), { p with index }.refreshGauge)
    | .add segment | .replace _ segment =>
      match p.readOld change.old? with
      | .error e => (.error e, p)
      | .ok old => p.offerRecords segment old records

/-- The second half of an operation. -/
def complete (p : Partition) (change : SegmentChange) : SegmentResult × Partition :=
  let (result, p) := p.perform change
  conclude change result p

/-- An operation on segments, both halves at once. -/
def change (p : Partition) (change : SegmentChange) : SegmentResult × Partition :=
  match p.start change with
  | (some result, p) => (result, p)
  | (none, p) => p.complete change

end Partition

end PartitionKeys
