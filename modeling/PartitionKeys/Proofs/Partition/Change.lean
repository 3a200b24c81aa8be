/-
# What an operation on segments does to a partition

The first half of an operation moves the watermark, enters the gate and reports; it never
touches the index.  The second half ends in one of four ways, `Performed`: the segments
cannot be read, a segment has been removed, a pass was refused and undone, or a pass was
accepted and the replaced segment dropped.  Whatever happens, the operation leaves the gate
as it found it.
-/
import PartitionKeys.Proofs.Partition.Pass

namespace PartitionKeys

lemma Gate.leave_of_enter? {g entered : Gate} (h : g.enter? = some entered) :
    entered.leave = g := by
  unfold enter? at h
  split at h
  · cases h
  · cases h
    rfl

/-- A gate that has been stopped lets nobody in. -/
lemma Gate.enter?_of_stopped {g : Gate} (h : g.stopped = true) : g.enter? = none := by
  simp [enter?, h]

namespace Partition

/-! ## The first half -/

/-- The watermark that has seen the largest time of the segment of an operation: only records
that come in move it. -/
def seeing (p : Partition) (change : SegmentChange) (time : Binary64) : Watermark :=
  if change.bringsRecords then p.watermark.observe time else p.watermark

/-- The ways that looking at the time of a segment can go. -/
inductive CheckedTo (p : Partition) (change : SegmentChange) :
    Option SegmentResult → Partition → Prop
  | lasting (ttlDisabled : p.settings.ttlEnabled = false) : CheckedTo p change none p
  | unread (e : Failure) (ttlEnabled : p.settings.ttlEnabled = true)
    (hmax : p.maxTime change.target = .error e) : CheckedTo p change (some (.error e)) p
  | expired (time : Binary64) (watermark : Watermark) (log : List Event)
    (ttlEnabled : p.settings.ttlEnabled = true) (hmax : p.maxTime change.target = .ok time)
    (hseen : watermark = p.seeing change time) (below : time < watermark.floor p.settings.ttl) :
    CheckedTo p change (some (.ok (.skipped (.outOfTtl time (watermark.floor p.settings.ttl)))))
      { p with watermark, log }
  | live (time : Binary64) (watermark : Watermark) (ttlEnabled : p.settings.ttlEnabled = true)
    (hmax : p.maxTime change.target = .ok time) (hseen : watermark = p.seeing change time)
    (hlive : ¬time < watermark.floor p.settings.ttl) :
    CheckedTo p change none { p with watermark }

lemma checkTime_checkedTo (p : Partition) (change : SegmentChange) :
    CheckedTo p change (p.checkTime change).1 (p.checkTime change).2 := by
  unfold checkTime
  split
  · next ttlEnabled =>
    cases hmax : p.maxTime change.target with
    | error e => exact .unread e ttlEnabled hmax
    | ok time =>
      have hsees : (if change.bringsRecords then p.observe time else p) =
          { p with watermark := p.seeing change time } := by
        unfold seeing
        split <;> rfl
      dsimp only
      rw [hsees]
      by_cases hbelow : time < (p.seeing change time).floor p.settings.ttl
      · have hskips : time < floor { p with watermark := p.seeing change time } := hbelow
        rw [if_pos hskips]
        exact .expired time _ _ ttlEnabled hmax rfl hbelow
      · have hpasses : ¬time < floor { p with watermark := p.seeing change time } := hbelow
        rw [if_neg hpasses]
        exact .live time _ ttlEnabled hmax rfl hbelow
  · next lasting => exact .lasting (Bool.eq_false_iff.2 lasting)

lemma checkedTo_of_eq {p q : Partition} {change : SegmentChange} {answer : Option SegmentResult}
    (h : p.checkTime change = (answer, q)) : CheckedTo p change answer q := by
  have hchecked := p.checkTime_checkedTo change
  rwa [h] at hchecked

lemma CheckedTo.frame {p q : Partition} {change : SegmentChange} {answer : Option SegmentResult}
    (h : CheckedTo p change answer q) : ∃ watermark log, q = { p with watermark, log } := by
  cases h with
  | lasting => exact ⟨p.watermark, p.log, rfl⟩
  | unread => exact ⟨p.watermark, p.log, rfl⟩
  | expired time watermark log => exact ⟨watermark, log, rfl⟩
  | live time watermark => exact ⟨watermark, p.log, rfl⟩

/-- Looking at the time of a segment does not look at the gate. -/
lemma checkTime_gate (p : Partition) (gate : Gate) (change : SegmentChange) :
    checkTime { p with gate } change =
      ((p.checkTime change).1, { (p.checkTime change).2 with gate }) := by
  have hmax : maxTime { p with gate } change.target = p.maxTime change.target := rfl
  unfold checkTime
  rw [hmax]
  dsimp only
  split
  · cases p.maxTime change.target with
    | error e => rfl
    | ok time =>
      cases change.bringsRecords with
      | true =>
        dsimp only
        by_cases hbelow : time < (p.observe time).floor
        · have hbelow' : time < (observe { p with gate } time).floor := hbelow
          rw [if_pos rfl, if_pos rfl, if_pos hbelow, if_pos hbelow']
          rfl
        · have hbelow' : ¬time < (observe { p with gate } time).floor := hbelow
          rw [if_pos rfl, if_pos rfl, if_neg hbelow, if_neg hbelow']
          rfl
      | false =>
        dsimp only
        by_cases hbelow : time < p.floor
        · have hbelow' : time < floor { p with gate } := hbelow
          simp only [Bool.false_eq_true, if_false]
          rw [if_pos hbelow, if_pos hbelow']
          rfl
        · have hbelow' : ¬time < floor { p with gate } := hbelow
          simp only [Bool.false_eq_true, if_false]
          rw [if_neg hbelow, if_neg hbelow']
  · rfl

/-- The ways that the first half of an operation can go.  Whatever is answered, the operation is
out of the gate again; it is inside if nothing is answered yet. -/
inductive StartedTo (p : Partition) (change : SegmentChange) :
    Option SegmentResult → Partition → Prop
  | empty (log : List Event) (hkind : change.target.kind = .empty) :
    StartedTo p change (some (.ok (.skipped .emptySegment))) { p with log }
  | unsupported (brings : change.bringsRecords = true)
    (hkind : change.target.kind ≠ .immutable) :
    StartedTo p change
      (some (.error (.unsupportedSegment change.target.name change.target.kind p.settings.table))) p
  | stopped (log : List Event) (outside : p.gate.enter? = none) :
    StartedTo p change (some (.ok (.skipped .stopped))) { p with log }
  | ended (gate : Gate) (result : SegmentResult) (q : Partition)
    (hsealed : change.bringsRecords = true → change.target.kind = .immutable)
    (inside : p.gate.enter? = some gate) (check : p.checkTime change = (some result, q)) :
    StartedTo p change (some (result.mapError (p.operationFailure change))) q
  | begun (gate : Gate) (q : Partition)
    (hsealed : change.bringsRecords = true → change.target.kind = .immutable)
    (inside : p.gate.enter? = some gate) (check : p.checkTime change = (none, q)) :
    StartedTo p change none { q with gate }

lemma start_startedTo (p : Partition) (change : SegmentChange) :
    StartedTo p change (p.start change).1 (p.start change).2 := by
  unfold start
  split
  · next hkind => exact .empty _ hkind
  split
  · next hgrowing => exact .unsupported hgrowing.1 hgrowing.2
  next hallowed =>
  have hsealed (brings : change.bringsRecords = true) : change.target.kind = .immutable := by
    by_contra hkind
    exact hallowed ⟨brings, hkind⟩
  cases hgate : p.gate.enter? with
  | none => exact .stopped _ hgate
  | some gate =>
    obtain ⟨watermark, log, hframe⟩ := (p.checkTime_checkedTo change).frame
    dsimp only
    rw [checkTime_gate]
    rcases hcheck : p.checkTime change with ⟨_ | result, q⟩
    · exact .begun gate q hsealed hgate hcheck
    · rw [hcheck] at hframe
      obtain rfl : q = { p with watermark, log } := hframe
      simp only [conclude, leave, Gate.leave_of_enter? hgate]
      exact .ended gate result _ hsealed hgate hcheck

lemma startedTo_of_eq {p q : Partition} {change : SegmentChange} {answer : Option SegmentResult}
    (h : p.start change = (answer, q)) : StartedTo p change answer q := by
  have hstarted := p.start_startedTo change
  rwa [h] at hstarted

/-- An operation that ends in its first half has not touched the index and is out of the
gate again. -/
lemma start_some {p q : Partition} {change : SegmentChange} {result : SegmentResult}
    (h : p.start change = (some result, q)) :
    (∃ watermark log, q = { p with watermark, log }) ∧
      ∀ counts, result ≠ .ok (.applied counts) := by
  have hstarted := startedTo_of_eq h
  generalize hanswer : some result = answer at hstarted
  cases hstarted with
  | empty log =>
    cases hanswer
    exact ⟨⟨p.watermark, log, rfl⟩, by simp⟩
  | unsupported =>
    cases hanswer
    exact ⟨⟨p.watermark, p.log, rfl⟩, by simp⟩
  | stopped log =>
    cases hanswer
    exact ⟨⟨p.watermark, log, rfl⟩, by simp⟩
  | ended gate found q hsealed inside check =>
    cases hanswer
    have hchecked := checkedTo_of_eq check
    refine ⟨hchecked.frame, fun counts => ?_⟩
    generalize hfound : some found = answer at hchecked
    cases hchecked <;> cases hfound <;> simp [Except.mapError]
  | begun => cases hanswer

/-- An operation whose segment has no documents ends at once. -/
lemma start_of_empty (p : Partition) (change : SegmentChange)
    (hkind : change.target.kind = .empty) :
    p.start change = (some (.ok (.skipped .emptySegment)),
      p.report (.skippedEmpty change.action change.subject)) := by
  rw [start, if_pos hkind]

/-- An operation that comes through its first half is inside the gate and has reported
nothing. -/
lemma start_none {p q : Partition} {change : SegmentChange} (h : p.start change = (none, q)) :
    ∃ watermark gate, p.gate.enter? = some gate ∧ q = { p with watermark, gate } := by
  cases startedTo_of_eq h with
  | begun gate q hsealed inside check =>
    cases checkedTo_of_eq check with
    | lasting => exact ⟨p.watermark, gate, inside, rfl⟩
    | live time watermark => exact ⟨watermark, gate, inside, rfl⟩

/-- An operation that brings records in and comes through its first half has a sealed segment. -/
lemma sealed_of_start {p q : Partition} {change : SegmentChange} (h : p.start change = (none, q))
    (brings : change.bringsRecords = true) : change.target.kind = .immutable := by
  cases startedTo_of_eq h with
  | begun gate q hsealed => exact hsealed brings

/-- Without retention nothing counts as stale. -/
lemma floor_terms {p : Partition} (lasting : p.settings.ttlEnabled = false)
    {rule : ComparisonRule} {replacing : Option SegmentId} :
    (p.terms rule replacing).floor = none := by
  simp [terms, lasting]

/-- Without retention an operation with a sealed segment comes in through an open gate. -/
lemma start_lasting {p : Partition} (lasting : p.settings.ttlEnabled = false) {gate : Gate}
    (henter : p.gate.enter? = some gate) (change : SegmentChange)
    (sealed : change.target.kind = .immutable) :
    p.start change = (none, { p with gate }) := by
  simp [start, checkTime, sealed, henter, lasting]

/-! ## The second half -/

lemma read_of_readAll {p : Partition} {segment : Segment} {records : List Record}
    (h : p.readAll segment = .ok records) : segment.read p.readRequest = .ok records :=
  mapError_ok h

/-- How the records of the new segment of an operation are offered. -/
def offering (p : Partition) (change : SegmentChange)
    (old : Option (SegmentId × List Record)) : Offering :=
  ⟨p.settings.hash, p.terms .sealed (old.map Prod.fst), change.target.id⟩

/-- The pass of an operation that brings records in, if its segments can be read. -/
def pass? (p : Partition) (change : SegmentChange) : Option (Option IndexError × Pass) :=
  if change.bringsRecords then
    match p.readAll change.target, p.readOld change.old? with
    | .ok records, .ok old => some (Pass.run (p.offering change old) records { index := p.index })
    | _, _ => none
  else none

/-- How the second half of an operation ends: its result, the index that it leaves, and the
log. -/
inductive Performed (p : Partition) (change : SegmentChange) :
    SegmentResult → KeyIndex → List Event → Prop
  | unread (e : Failure) (hpass : p.pass? change = none) :
    Performed p change (.error e) p.index p.log
  | removed (segment : Segment) (records : List Record) (hchange : change = .remove segment)
    (hread : p.readAll segment = .ok records) :
    Performed p change
      (.ok (.applied { removed := (p.index.removeOwned p.settings.hash segment.id records).1 }))
      (p.index.removeOwned p.settings.hash segment.id records).2 p.log
  | refused (e : IndexError) (pass : Pass) (hpass : p.pass? change = some (some e, pass)) :
    Performed p change (.error (.index e)) (pass.index.rollBack pass.journal).2
      (p.log ++ pass.events ++
        [.rolledBack change.target.name (pass.index.rollBack pass.journal).1])
  | added (segment : Segment) (records : List Record) (pass : Pass)
    (hchange : change = .add segment) (hread : p.readAll segment = .ok records)
    (hrun : Pass.run (p.offering change none) records { index := p.index } = (none, pass)) :
    Performed p change (.ok (.applied pass.counts)) pass.index (p.log ++ pass.events)
  | replaced (old new : Segment) (dropped records : List Record) (pass : Pass)
    (hchange : change = .replace old new) (hread : p.readAll new = .ok records)
    (hold : p.readAll old = .ok dropped)
    (hrun : Pass.run (p.offering change (some (old.id, dropped))) records { index := p.index } =
      (none, pass)) :
    Performed p change
      (.ok (.applied { pass.counts with
        removed := (pass.index.removeOwned p.settings.hash old.id dropped).1 }))
      (pass.index.removeOwned p.settings.hash old.id dropped).2 (p.log ++ pass.events)

lemma readOld_ok {p : Partition} {old : Segment} {dropped : List Record}
    (h : p.readAll old = .ok dropped) : p.readOld (some old) = .ok (some (old.id, dropped)) := by
  dsimp only [readOld]
  rw [h]
  rfl

lemma readOld_error {p : Partition} {old : Segment} {e : Failure}
    (h : p.readAll old = .error e) : p.readOld (some old) = .error e := by
  dsimp only [readOld]
  rw [h]
  rfl

lemma pass?_eq {p : Partition} {change : SegmentChange} {records : List Record}
    {old : Option (SegmentId × List Record)} (brings : change.bringsRecords = true)
    (hread : p.readAll change.target = .ok records) (hold : p.readOld change.old? = .ok old) :
    p.pass? change = some (Pass.run (p.offering change old) records { index := p.index }) := by
  simp [pass?, brings, hread, hold]

lemma pass?_run {p : Partition} {change : SegmentChange} {result : Option IndexError × Pass}
    (h : p.pass? change = some result) :
    ∃ o records, result = Pass.run o records { index := p.index } := by
  unfold pass? at h
  split at h
  · split at h
    · cases h
      exact ⟨_, _, rfl⟩
    · cases h
  · cases h

/-- Offering the records of the new segment, in terms of its pass. -/
lemma offerRecords_eq (p : Partition) (change : SegmentChange)
    (old : Option (SegmentId × List Record)) (records : List Record) :
    p.offerRecords change.target old records =
      match Pass.run (p.offering change old) records { index := p.index } with
      | (some e, pass) =>
        (.error (.index e), undo { p with log := p.log ++ pass.events } change.target pass)
      | (none, pass) =>
        (.ok (.applied (finishPass { p with log := p.log ++ pass.events } old pass).1),
          (finishPass { p with log := p.log ++ pass.events } old pass).2) :=
  rfl

/-- Offering the records of the new segment: a pass that is refused is undone, and one that
is accepted leaves the rest to the kind of operation. -/
lemma offerRecords_performed {p : Partition} (change : SegmentChange) {records : List Record}
    {old : Option (SegmentId × List Record)} (brings : change.bringsRecords = true)
    (hread : p.readAll change.target = .ok records) (hold : p.readOld change.old? = .ok old)
    (accepted : ∀ pass,
      Pass.run (p.offering change old) records { index := p.index } = (none, pass) →
      Performed p change (.ok (.applied (p.finishPass old pass).1)) (p.finishPass old pass).2.index
        (p.log ++ pass.events)) :
    Performed p change (p.offerRecords change.target old records).1
      (p.offerRecords change.target old records).2.index
      (p.offerRecords change.target old records).2.log := by
  have hpass := pass?_eq brings hread hold
  rcases hrun : Pass.run (p.offering change old) records { index := p.index } with ⟨_ | e, pass⟩
  · rw [offerRecords_eq, hrun]
    cases old with
    | none => exact accepted pass hrun
    | some old => exact accepted pass hrun
  · rw [hrun] at hpass
    rw [offerRecords_eq, hrun]
    exact .refused e pass hpass

/-- Adding a segment whose pass is accepted. -/
lemma perform_add {p : Partition} {segment : Segment} {records : List Record} {pass : Pass}
    (hread : p.readAll segment = .ok records)
    (hrun : Pass.run (p.offering (.add segment) none) records { index := p.index } =
      (none, pass)) :
    (p.perform (.add segment)).1 = .ok (.applied pass.counts) ∧
      (p.perform (.add segment)).2.index = pass.index := by
  have hoffer := p.offerRecords_eq (.add segment) none records
  rw [hrun] at hoffer
  have hperform : p.perform (.add segment) = p.offerRecords segment none records := by
    unfold perform
    rw [show p.readAll (SegmentChange.add segment).target = .ok records from hread]
    rfl
  rw [hperform]
  exact ⟨congrArg Prod.fst hoffer, congrArg (fun result => result.2.index) hoffer⟩

lemma perform_performed (p : Partition) (change : SegmentChange) :
    Performed p change (p.perform change).1 (p.perform change).2.index
      (p.perform change).2.log := by
  unfold perform
  cases hread : p.readAll change.target with
  | error e => exact .unread e (by simp [pass?, hread])
  | ok records =>
    cases change with
    | remove segment => exact .removed segment records rfl hread
    | add segment =>
      exact offerRecords_performed (.add segment) rfl hread rfl fun pass hrun =>
        .added segment records pass rfl hread hrun
    | replace old new =>
      dsimp only [SegmentChange.old?]
      cases hold : p.readAll old with
      | error e =>
        rw [readOld_error hold]
        refine .unread e ?_
        simp [pass?, SegmentChange.old?, readOld_error hold]
      | ok dropped =>
        rw [readOld_ok hold]
        exact offerRecords_performed (.replace old new) rfl hread (readOld_ok hold)
          fun pass hrun => .replaced old new dropped records pass rfl hread hold hrun

/-- The second half leaves the settings, the watermark, the store and the gate alone. -/
lemma perform_frame (p : Partition) (change : SegmentChange) :
    ∃ index metrics log, (p.perform change).2 = { p with index, metrics, log } := by
  unfold perform
  cases p.readAll change.target with
  | error e => exact ⟨p.index, p.metrics, p.log, rfl⟩
  | ok records =>
    cases change with
    | remove segment => exact ⟨_, _, _, rfl⟩
    | add segment | replace old segment =>
      dsimp only
      split
      · exact ⟨p.index, p.metrics, p.log, rfl⟩
      unfold offerRecords
      dsimp only
      split
      · exact ⟨_, _, _, rfl⟩
      · unfold finishPass
        split <;> exact ⟨_, _, _, rfl⟩

/-! ## Both halves -/

lemma change_of_start_some {p q : Partition} {change : SegmentChange} {result : SegmentResult}
    (h : p.start change = (some result, q)) : p.change change = (result, q) := by
  rw [Partition.change, h]

lemma change_of_start_none {p q : Partition} {change : SegmentChange}
    (h : p.start change = (none, q)) :
    p.change change = ((q.perform change).1.mapError ((q.perform change).2.operationFailure change),
      (q.perform change).2.leave) := by
  rw [Partition.change, h]
  rfl

/-- An operation has left the index alone, or its second half has changed the index and given
the result, up to what failures are wrapped in. -/
lemma change_perform (p : Partition) (change : SegmentChange) :
    (p.change change).2.index = p.index ∨ ∃ watermark gate wrap,
      (p.change change).1 = (perform { p with watermark, gate } change).1.mapError wrap ∧
      (p.change change).2.index = (perform { p with watermark, gate } change).2.index := by
  rcases hstart : p.start change with ⟨_ | result, q⟩
  · obtain ⟨watermark, gate, -, rfl⟩ := start_none hstart
    rw [change_of_start_none hstart]
    exact .inr ⟨watermark, gate, _, rfl, rfl⟩
  · obtain ⟨⟨watermark, log, rfl⟩, -⟩ := start_some hstart
    rw [change_of_start_some hstart]
    exact .inl rfl

/-- The index after an operation is the one from before, or the one that the second half
leaves. -/
lemma change_index (p : Partition) (change : SegmentChange) :
    (p.change change).2.index = p.index ∨ ∃ watermark gate,
      (p.change change).2.index = (perform { p with watermark, gate } change).2.index :=
  (p.change_perform change).imp_right fun ⟨watermark, gate, _, _, heq⟩ => ⟨watermark, gate, heq⟩

/-- An operation that was applied has come through both halves. -/
lemma performed_of_applied {p : Partition} {change : SegmentChange} {counts : Counts}
    (h : (p.change change).1 = .ok (.applied counts)) :
    ∃ q, p.start change = (none, q) ∧
      Performed q change (.ok (.applied counts)) (p.change change).2.index
        (q.perform change).2.log := by
  rcases hstart : p.start change with ⟨_ | result, q⟩
  · rw [change_of_start_none hstart] at h ⊢
    have hperformed := q.perform_performed change
    refine ⟨q, rfl, ?_⟩
    generalize (q.perform change).1 = result at h hperformed
    cases result with
    | error e => cases h
    | ok outcome =>
      cases h
      exact hperformed
  · rw [change_of_start_some hstart] at h
    exact absurd h ((start_some hstart).2 counts)

lemma change_applied {p : Partition} {change : SegmentChange} {counts : Counts}
    (h : (p.change change).1 = .ok (.applied counts)) :
    ∃ watermark gate log, Performed { p with watermark, gate } change (.ok (.applied counts))
      (p.change change).2.index log := by
  obtain ⟨q, hstart, hperformed⟩ := performed_of_applied h
  obtain ⟨watermark, gate, -, rfl⟩ := start_none hstart
  exact ⟨watermark, gate, _, hperformed⟩

/-- Whatever becomes of an operation, it moves the watermark and changes the index, the gauges
and the log; the gate is as before. -/
lemma change_frame (p : Partition) (change : SegmentChange) :
    ∃ index watermark metrics log,
      (p.change change).2 = { p with index, watermark, metrics, log } := by
  rcases hstart : p.start change with ⟨_ | result, q⟩
  · obtain ⟨watermark, gate, henter, rfl⟩ := start_none hstart
    obtain ⟨index, metrics, log, hframe⟩ := perform_frame { p with watermark, gate } change
    refine ⟨index, watermark, metrics, log, ?_⟩
    rw [change_of_start_none hstart, hframe]
    simp only [leave, Gate.leave_of_enter? henter]
  · obtain ⟨⟨watermark, log, rfl⟩, -⟩ := start_some hstart
    exact ⟨p.index, watermark, p.metrics, log, by rw [change_of_start_some hstart]⟩

end Partition

end PartitionKeys
