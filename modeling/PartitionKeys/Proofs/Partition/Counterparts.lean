/-
# Partitions that match on some keys

What a call makes of a partition depends on the settings, the watermark and the gate, and of the
index on the entries of those keys only that the call mentions.  Two partitions that agree in all
this are `Counterparts`, whether or not they hold keys in the same way.  A call that mentions
matching keys only is answered alike by both and reports the same, and it leaves them
counterparts, whatever becomes of it: skipped, applied, or refused and undone.
-/
import PartitionKeys.Proofs.Index.Matching
import PartitionKeys.Proofs.Partition.Locality

namespace PartitionKeys

/-- What a partition answers to a call; stopping always succeeds. -/
inductive Answer where
  | segment (result : SegmentResult)
  | record (result : Partition.RecordResult)
  | sweep (result : Partition.SweepResult)
  | stop
  | close (result : CloseResult)

namespace Partition

/-- The answer of a partition to a call. -/
def answer (p : Partition) : Call → Answer
  | .change change => .segment (p.change change).1
  | .ingest segment record => .record (p.ingest segment record).1
  | .sweep => .sweep p.sweep.1
  | .stop => .stop
  | .close => .close p.closeNow.1

/-! ## What a call leaves -/

/-- What a call leaves of a partition: a watermark, an index, further events in the log, and
perhaps the gauge set anew. -/
def leaving (p : Partition) (watermark : Watermark) (index : KeyIndex) (events : List Event)
    (gauged : Bool) : Partition :=
  { p with
    watermark
    index
    log := p.log ++ events
    metrics :=
      if gauged then
        p.metrics.setGauge p.settings.table p.settings.partition p.settings.kind.keyGauge index.size
      else p.metrics }

/-- Nothing is reported. -/
lemma leaving_nil (p : Partition) (watermark : Watermark) (index : KeyIndex) :
    p.leaving watermark index [] false = { p with watermark, index } := by
  simp [leaving]

/-- Only the gauge is set. -/
lemma refreshGauge_eq_leaving (p : Partition) (index : KeyIndex) :
    refreshGauge { p with index } = p.leaving p.watermark index [] true := by
  simp [leaving, refreshGauge, setGauge, size]

/-- An operation that went in comes out again. -/
lemma leave_leaving {p : Partition} {gate : Gate} (inside : p.gate.enter? = some gate)
    (watermark : Watermark) (index : KeyIndex) (events : List Event) (gauged : Bool) :
    (leaving { p with gate } watermark index events gauged).leave =
      p.leaving watermark index events gauged := by
  simp only [leaving, leave, Gate.leave_of_enter? inside]

/-- A pass that is undone has reported its own events and how many writes were put back. -/
lemma undo_eq_leaving (p : Partition) (segment : Segment) (pass : Pass) :
    undo { p with log := p.log ++ pass.events } segment pass =
      p.leaving p.watermark (pass.index.rollBack pass.journal).2
        (pass.events ++ [.rolledBack segment.name (pass.index.rollBack pass.journal).1]) true := by
  simp [undo, leaving, report, refreshGauge, setGauge, size]

/-- A record that is turned away by a dedup table is reported, and the gauge is set unless the
index fails. -/
lemma offerRecord_eq_leaving (p : Partition) (segment : SegmentId) (record : Record) :
    p.offerRecord segment record =
      match p.applyRecord p.watermark segment record with
      | (.error e, index) => (.error (.index e), p.leaving p.watermark index [] false)
      | (.ok update, index) =>
        (.ok (.indexed update.outcome), p.leaving p.watermark index
          (if update.outcome = .rejected ∧ p.settings.kind = .dedup then
            [.duplicateKey segment.name record.key.display] else []) true) := by
  have hcall : p.applyRecord p.watermark segment record = p.index.apply (p.keyOf record.key)
      (.of ⟨segment, record.doc⟩ record.version p.settings.timeColumn)
      (p.terms .perColumn none) := rfl
  unfold offerRecord
  dsimp only
  rw [← hcall]
  rcases p.applyRecord p.watermark segment record with ⟨e | update, index⟩
  · dsimp only
    rw [leaving_nil]
  · dsimp only
    split
    · rfl
    · rw [refreshGauge_eq_leaving]

/-! ## Counterparts -/

/-- Two partitions with the same settings but for how they hold keys, at the same watermark and
gate, whose indexes match on some keys. -/
structure Counterparts (keys : Set PrimaryKey) (p q : Partition) : Prop where
  settings : q.settings = { p.settings with hash := q.settings.hash }
  watermark : q.watermark = p.watermark
  gate : q.gate = p.gate
  alike : p.settings.hash.Alike q.settings.hash keys
  index : p.index.Matched p.settings.hash q.settings.hash keys q.index

/-- The results of a call of two partitions: the same answer, and what is left is the same but
for the indexes, which match. -/
inductive Parallel (keys : Set PrimaryKey) (p q : Partition) {α : Type} :
    α × Partition → α × Partition → Prop
  | intro (answer : α) (watermark : Watermark) (i j : KeyIndex) (events : List Event)
    (gauged : Bool) (matched : i.Matched p.settings.hash q.settings.hash keys j) :
    Parallel keys p q (answer, p.leaving watermark i events gauged)
      (answer, q.leaving watermark j events gauged)

variable {keys : Set PrimaryKey} {p q : Partition}

lemma Parallel.answer_eq {α : Type} {x y : α × Partition} (h : Parallel keys p q x y) :
    y.1 = x.1 := by
  cases h
  rfl

lemma Parallel.of_eq {α : Type} {x x' y y' : α × Partition} (h : Parallel keys p q x y)
    (hx : x' = x) (hy : y' = y) : Parallel keys p q x' y' :=
  hx ▸ hy ▸ h

/-- The watermark from before is not left. -/
lemma Parallel.of_watermark {watermark watermark' : Watermark} {α : Type} {x y : α × Partition}
    (h : Parallel keys { p with watermark } { q with watermark := watermark' } x y) :
    Parallel keys p q x y := by
  cases h with
  | intro answer watermark i j events gauged matched =>
    exact .intro answer watermark i j events gauged matched

namespace Counterparts

lemma eq_with (h : Counterparts keys p q) : ∃ hash index store metrics log,
    q = { p with settings := { p.settings with hash }, index, store, metrics, log } := by
  obtain ⟨settings, index, watermark, store, metrics, gate, log⟩ := q
  obtain ⟨hsettings, rfl, rfl, -, -⟩ := h
  exact ⟨settings.hash, index, store, metrics, log, congrArg
    (fun s => Partition.mk s index p.watermark store metrics p.gate log) hsettings⟩

/-- After a call both partitions are counterparts again. -/
lemma of_parallel {α : Type} {x y : α × Partition} (h : Counterparts keys p q)
    (hxy : Parallel keys p q x y) : Counterparts keys x.2 y.2 := by
  cases hxy with
  | intro answer watermark i j events gauged matched =>
    exact ⟨h.settings, rfl, h.gate, h.alike, matched⟩

/-- A call that leaves both partitions as they are. -/
lemma unchanged (h : Counterparts keys p q) {α : Type} (answer : α) :
    Parallel keys p q (answer, p) (answer, q) := by
  refine (Parallel.intro answer p.watermark _ _ [] false h.index).of_eq ?_ ?_
  · rw [leaving_nil]
  · rw [leaving_nil, ← h.watermark]

/-! ## The first half of an operation -/

/-- Looking at the time of a segment ends the operation in both, or moves the watermark alike. -/
lemma checkTime (h : Counterparts keys p q) (change : SegmentChange) :
    (∃ result watermark events,
      p.checkTime change = (some result, p.leaving watermark p.index events false) ∧
      q.checkTime change = (some result, q.leaving watermark q.index events false)) ∨
    ∃ watermark, p.checkTime change = (none, { p with watermark }) ∧
      q.checkTime change = (none, { q with watermark }) := by
  obtain ⟨hash, index, store, metrics, log, rfl⟩ := h.eq_with
  have hmax : maxTime { p with settings := { p.settings with hash }, index, store, metrics, log }
      change.target = p.maxTime change.target := rfl
  have hlasting : ({ p.settings with hash } : Settings).ttlEnabled = p.settings.ttlEnabled := rfl
  unfold Partition.checkTime
  rw [hmax]
  dsimp only
  rw [hlasting]
  split
  · cases p.maxTime change.target with
    | error e => exact .inl ⟨.error e, p.watermark, [], by rw [leaving_nil], by rw [leaving_nil]⟩
    | ok time =>
      cases change.bringsRecords with
      | false =>
        by_cases hbelow : time < p.watermark.floor p.settings.ttl <;>
          simp only [Partition.floor, hbelow, Bool.false_eq_true, if_true, if_false]
        · exact .inl ⟨_, p.watermark, [p.expiredEvent change time], rfl, rfl⟩
        · exact .inr ⟨p.watermark, rfl, rfl⟩
      | true =>
        by_cases hbelow : time < (p.watermark.observe time).floor p.settings.ttl <;>
          simp only [observe, Partition.floor, hbelow, if_true, if_false]
        · exact .inl ⟨_, p.watermark.observe time, [p.expiredEvent change time], rfl, rfl⟩
        · exact .inr ⟨p.watermark.observe time, rfl, rfl⟩
  · exact .inr ⟨p.watermark, rfl, rfl⟩

lemma operationFailure (h : Counterparts keys p q) (change : SegmentChange) :
    q.operationFailure change = p.operationFailure change := by
  funext cause
  rw [Partition.operationFailure, Partition.operationFailure, h.settings]

/-- The first half of an operation ends it in both, or lets it into both gates. -/
lemma start (h : Counterparts keys p q) (change : SegmentChange) :
    (∃ result watermark events,
      p.start change = (some result, p.leaving watermark p.index events false) ∧
      q.start change = (some result, q.leaving watermark q.index events false)) ∨
    ∃ watermark gate, p.gate.enter? = some gate ∧
      p.start change = (none, { p with watermark, gate }) ∧
      q.start change = (none, { q with watermark, gate }) := by
  have hcheck := h.checkTime change
  have hfailure := h.operationFailure change
  have hgate := h.gate
  unfold Partition.start
  by_cases hempty : change.target.kind = .empty
  · rw [if_pos hempty, if_pos hempty]
    exact .inl ⟨_, p.watermark, [_], rfl, by rw [← h.watermark]; rfl⟩
  rw [if_neg hempty, if_neg hempty]
  by_cases hgrowing : change.bringsRecords = true ∧ change.target.kind ≠ .immutable
  · rw [if_pos hgrowing, if_pos hgrowing, h.settings]
    exact .inl ⟨_, p.watermark, [], by rw [leaving_nil], by rw [leaving_nil, ← h.watermark]⟩
  rw [if_neg hgrowing, if_neg hgrowing, h.gate]
  cases hinside : p.gate.enter? with
  | none => exact .inl ⟨_, p.watermark, [_], rfl, by rw [← h.watermark]; rfl⟩
  | some gate =>
    have hleave := Gate.leave_of_enter? hinside
    dsimp only
    -- the time is looked at inside the gate, which makes no difference to the look
    rw [checkTime_gate p, checkTime_gate q]
    rcases hcheck with ⟨result, watermark, events, hp, hq⟩ | ⟨watermark, hp, hq⟩
    · rw [hp, hq]
      refine .inl ⟨result.mapError (p.operationFailure change), watermark, events, ?_, ?_⟩
      · simp only [conclude, leaving, leave, hleave]
        rfl
      · simp only [conclude, leaving, leave, hleave, ← hgate, ← hfailure]
        rfl
    · rw [hp, hq]
      exact .inr ⟨watermark, gate, rfl, rfl, rfl⟩

/-! ## The second half of an operation -/

lemma readAll_eq (h : Counterparts keys p q) (segment : Segment) :
    q.readAll segment = p.readAll segment := by
  rw [Partition.readAll, Partition.readAll, readRequest, readRequest, h.settings]

lemma readOld_eq (h : Counterparts keys p q) (old : Option Segment) :
    q.readOld old = p.readOld old := by
  cases old with
  | none => rfl
  | some old => rw [Partition.readOld, Partition.readOld, h.readAll_eq]

lemma terms_eq (h : Counterparts keys p q) (rule : ComparisonRule) (replacing : Option SegmentId) :
    q.terms rule replacing = p.terms rule replacing := by
  obtain ⟨hash, index, store, metrics, log, rfl⟩ := h.eq_with
  rfl

/-- Offering the records of a segment: the passes end alike, and undoing a pass brings back what
matched before. -/
lemma offerRecords (h : Counterparts keys p q) (change : SegmentChange) {records : List Record}
    (hrecords : ∀ record ∈ records, record.key ∈ keys) {old : Option (SegmentId × List Record)}
    (hold : ∀ segment dropped, old = some (segment, dropped) →
      ∀ record ∈ dropped, record.key ∈ keys) :
    Parallel keys p q (p.offerRecords change.target old records)
      (q.offerRecords change.target old records) := by
  have hback := KeyIndex.rollBack_journal (p.offering change old) records p.index
  have hback' := KeyIndex.rollBack_journal (q.offering change old) records q.index
  have hstart : Pass.Matched p.settings.hash q.settings.hash keys { index := p.index }
      { index := q.index } := ⟨h.index, rfl, rfl, rfl⟩
  obtain ⟨hanswer, hpass⟩ := hstart.run h.alike (p.terms .sealed (old.map Prod.fst))
    change.target.id hrecords
  have hoffering : q.offering change old =
      ⟨q.settings.hash, p.terms .sealed (old.map Prod.fst), change.target.id⟩ := by
    rw [offering, h.terms_eq]
  rw [hoffering] at hback'
  rw [offerRecords_eq, offerRecords_eq, hoffering]
  unfold offering at hback ⊢
  generalize Pass.run _ records { index := p.index } = run at hback hanswer hpass ⊢
  generalize Pass.run _ records { index := q.index } = run' at hback' hanswer hpass ⊢
  obtain ⟨answer, pass⟩ := run
  obtain ⟨answer', pass'⟩ := run'
  obtain rfl : answer' = answer := hanswer
  obtain ⟨hindex, hjournal, hcounts, hevents⟩ := hpass
  dsimp only at hback hback' hindex hjournal hcounts hevents ⊢
  cases answer' with
  | some e =>
    -- undoing brings back the entries from before in both, which match, and as many writes
    have hrestored : (pass'.index.rollBack pass'.journal).1 =
        (pass.index.rollBack pass.journal).1 := by
      rw [hback.1, hback'.1, hjournal]
    have hmatched := h.index.of_get? hback.2 hback'.2
      (hindex.failsLike.of_twins (KeyIndex.Twins.rollBack pass.index pass.journal)
        (KeyIndex.Twins.rollBack pass'.index pass'.journal))
    dsimp only
    rw [undo_eq_leaving, undo_eq_leaving, hrestored, hevents, h.watermark]
    exact .intro _ _ _ _ _ true hmatched
  | none =>
    cases old with
    | none =>
      refine (Parallel.intro (.ok (.applied pass.counts)) p.watermark _ _ pass.events true
        hindex).of_eq rfl ?_
      rw [← hcounts, ← hevents, ← h.watermark]
      rfl
    | some old =>
      obtain ⟨hdropped, hmatched⟩ := hindex.removeOwned h.alike old.1 (hold old.1 old.2 rfl)
      refine (Parallel.intro (.ok (.applied { pass.counts with
        removed := (pass.index.removeOwned p.settings.hash old.1 old.2).1 })) p.watermark _ _
        pass.events true hmatched).of_eq rfl ?_
      rw [← hcounts, ← hevents, ← h.watermark, ← hdropped]
      rfl

/-- The second half of an operation that mentions matching keys only. -/
lemma perform (h : Counterparts keys p q) {change : SegmentChange}
    (mentions : ∀ key, (Call.change change).Mentions p.readRequest key → key ∈ keys) :
    Parallel keys p q (p.perform change) (q.perform change) := by
  have hread {segment : Segment} {records : List Record} (named : segment ∈ change.segments)
      (hrecords : p.readAll segment = .ok records) : ∀ record ∈ records, record.key ∈ keys :=
    fun record hmem => mentions _ (.listed named (read_of_readAll hrecords) hmem)
  unfold Partition.perform
  rw [h.readAll_eq]
  cases hrecords : p.readAll change.target with
  | error e => exact h.unchanged _
  | ok records =>
    have hkeys := hread change.target_mem_segments hrecords
    cases change with
    | remove segment =>
      obtain ⟨hdropped, hmatched⟩ := h.index.removeOwned h.alike segment.id hkeys
      dsimp only
      rw [refreshGauge_eq_leaving, refreshGauge_eq_leaving, hdropped, h.watermark]
      exact .intro _ _ _ _ [] true hmatched
    | add segment =>
      exact h.offerRecords (.add segment) hkeys nofun
    | replace old segment =>
      dsimp only
      rw [h.readOld_eq]
      cases hdropped : p.readAll old with
      | error e =>
        rw [SegmentChange.old?, readOld_error hdropped]
        exact h.unchanged _
      | ok dropped =>
        rw [SegmentChange.old?, readOld_ok hdropped]
        refine h.offerRecords (.replace old segment) hkeys ?_
        rintro _ _ ⟨⟩
        exact hread (by simp [SegmentChange.segments]) hdropped

/-! ## Calls -/

/-- An operation on segments that mentions matching keys only. -/
lemma change (h : Counterparts keys p q) {change : SegmentChange}
    (mentions : ∀ key, (Call.change change).Mentions p.readRequest key → key ∈ keys) :
    Parallel keys p q (p.change change) (q.change change) := by
  rcases h.start change with
    ⟨result, watermark, events, hp, hq⟩ | ⟨watermark, gate, hinside, hp, hq⟩
  · rw [change_of_start_some hp, change_of_start_some hq]
    exact .intro _ _ _ _ _ false h.index
  · have hbegun : Counterparts keys { p with watermark, gate } { q with watermark, gate } :=
      ⟨h.settings, rfl, rfl, h.alike, h.index⟩
    have hleft {r : Partition} (inside : r.gate.enter? = some gate) (watermark' : Watermark)
        (i : KeyIndex) (events : List Event) (gauged : Bool) :
        (leaving { r with watermark, gate } watermark' i events gauged).leave =
          r.leaving watermark' i events gauged :=
      leave_leaving inside watermark' i events gauged
    have hperform := hbegun.perform mentions
    have hfailure := (hbegun.of_parallel hperform).operationFailure change
    rw [change_of_start_none hp, change_of_start_none hq, hfailure]
    generalize Partition.perform { p with watermark, gate } change = x at hperform ⊢
    generalize Partition.perform { q with watermark, gate } change = y at hperform ⊢
    cases hperform with
    | intro answer watermark i j events gauged matched =>
      dsimp only
      rw [hleft hinside, hleft (h.gate ▸ hinside)]
      exact .intro _ _ _ _ _ _ matched

lemma offerRecord (h : Counterparts keys p q) (segment : SegmentId) {record : Record}
    (hkey : record.key ∈ keys) :
    Parallel keys p q (p.offerRecord segment record) (q.offerRecord segment record) := by
  have hentry : q.recordEntry segment record = p.recordEntry segment record := by
    rw [recordEntry, recordEntry, h.settings]
  have hkind : q.settings.kind = p.settings.kind := by rw [h.settings]
  obtain ⟨hanswer, hmatched⟩ := h.index.apply h.alike hkey (p.recordEntry segment record)
    (p.terms .perColumn none)
  have hp : p.applyRecord p.watermark segment record =
      p.index.apply (p.settings.hash.apply record.key) (p.recordEntry segment record)
        (p.terms .perColumn none) := rfl
  have hq : q.applyRecord q.watermark segment record =
      q.index.apply (q.settings.hash.apply record.key) (p.recordEntry segment record)
        (p.terms .perColumn none) := by
    rw [← hentry, ← h.terms_eq]
    rfl
  rw [offerRecord_eq_leaving, offerRecord_eq_leaving, hp, hq, h.watermark, hkind]
  generalize p.index.apply (p.settings.hash.apply record.key) _ _ = call at hanswer hmatched ⊢
  generalize q.index.apply (q.settings.hash.apply record.key) _ _ = call' at hanswer hmatched ⊢
  obtain ⟨answer, index⟩ := call
  obtain ⟨answer', index'⟩ := call'
  obtain rfl : answer' = answer := hanswer
  cases answer' with
  | error e => exact .intro _ _ _ _ [] false hmatched
  | ok update => exact .intro _ _ _ _ _ true hmatched

/-- Looking at the time of a record skips it in both, or moves the watermark alike. -/
lemma checkRecordTime (h : Counterparts keys p q) (record : Record) :
    ∃ reason watermark, p.checkRecordTime record = (reason, { p with watermark }) ∧
      q.checkRecordTime record = (reason, { q with watermark }) := by
  obtain ⟨hash, index, store, metrics, log, rfl⟩ := h.eq_with
  have hlasting : ({ p.settings with hash } : Settings).ttlEnabled = p.settings.ttlEnabled := rfl
  unfold Partition.checkRecordTime
  dsimp only
  rw [hlasting]
  split
  · cases p.settings.timeColumn.bind record.version.time? with
    | none => exact ⟨none, p.watermark, rfl, rfl⟩
    | some time =>
      by_cases hbelow : time < (p.watermark.observe time).floor p.settings.ttl <;>
        simp only [observe, Partition.floor, hbelow, if_true, if_false] <;>
        exact ⟨_, p.watermark.observe time, rfl, rfl⟩
  · exact ⟨none, p.watermark, rfl, rfl⟩

/-- Taking in a record whose key matches. -/
lemma ingest (h : Counterparts keys p q) (segment : SegmentId) {record : Record}
    (hkey : record.key ∈ keys) :
    Parallel keys p q (p.ingest segment record) (q.ingest segment record) := by
  cases hgate : p.gate.enter? with
  | none =>
    rw [Partition.ingest, Partition.ingest, h.gate, hgate]
    refine (Parallel.intro _ p.watermark _ _ [_] false h.index).of_eq rfl ?_
    rw [← h.watermark]
    rfl
  | some gate =>
    obtain ⟨reason, watermark, hp, hq⟩ := h.checkRecordTime record
    rw [ingest_of_enter hgate, ingest_of_enter (h.gate ▸ hgate), hp, hq]
    have hchecked : Counterparts keys { p with watermark } { q with watermark } :=
      ⟨h.settings, rfl, h.gate, h.alike, h.index⟩
    cases reason with
    | some reason => exact (hchecked.unchanged _).of_watermark
    | none => exact (hchecked.offerRecord segment hkey).of_watermark

/-- **What is read determines what is done.**  A call that mentions matching keys only is answered
alike by counterparts, and leaves them counterparts. -/
theorem update (h : Counterparts keys p q) {call : Call} (hupdate : call.IsUpdate)
    (mentions : ∀ key, call.Mentions p.readRequest key → key ∈ keys) :
    q.answer call = p.answer call ∧ Counterparts keys (p.call call) (q.call call) := by
  cases call with
  | change change =>
    have hparallel := h.change mentions
    exact ⟨congrArg Answer.segment hparallel.answer_eq, h.of_parallel hparallel⟩
  | ingest segment record =>
    have hparallel := h.ingest segment (mentions _ (.single segment record))
    exact ⟨congrArg Answer.record hparallel.answer_eq, h.of_parallel hparallel⟩
  | sweep | stop | close => exact hupdate.elim

end Counterparts

end Partition

end PartitionKeys
