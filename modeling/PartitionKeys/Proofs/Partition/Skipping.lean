/-
# A skip changes nothing

A call that is skipped shows in the log and nowhere else.  Most reasons are found before
anything is touched.  An expired time is looked at only after the watermark has taken it into
account; but a time that moves the watermark is the watermark from then on, and the floor is
never above the watermark.  So a time that is found below the floor has moved nothing, and
the floor that is reported is the one from before.
-/
import PartitionKeys.Proofs.Binary64.Subtraction
import PartitionKeys.Proofs.Partition.Gauge

namespace PartitionKeys

namespace Partition

variable {p : Partition} {time : Binary64}

/-! ## Expired times -/

/-- Keys expire, and a time is too old. -/
structure Expired (p : Partition) (time : Binary64) : Prop where
  ttlEnabled : p.settings.ttlEnabled = true
  below : time < p.floor

/-- A time that is too old is no news to the watermark. -/
lemma Expired.observe_watermark (h : p.Expired time) : p.watermark.observe time = p.watermark := by
  refine if_neg fun hnews => ?_
  have hpast : p.watermark.time < p.watermark.time - p.settings.ttl :=
    Binary64.lt_trans hnews h.below
  exact Binary64.not_lt_sub (of_decide_eq_true h.ttlEnabled) hpast

/-- Neither was a time that is too old after the watermark has taken it into account. -/
lemma observe_of_below (ttlEnabled : p.settings.ttlEnabled = true)
    (below : time < (p.watermark.observe time).floor p.settings.ttl) :
    p.watermark.observe time = p.watermark := by
  refine if_neg fun hnews => ?_
  have hmoved : p.watermark.observe time = ⟨time⟩ := if_pos hnews
  rw [hmoved] at below
  exact Binary64.not_lt_sub (of_decide_eq_true ttlEnabled) below

/-- A segment that is found expired has moved nothing. -/
lemma checkTime_skipped {q : Partition} {change : SegmentChange} {reason : SkipReason}
    (h : p.checkTime change = (some (.ok (.skipped reason)), q)) :
    ∃ time, p.maxTime change.target = .ok time ∧ p.Expired time ∧
      reason = .outOfTtl time p.floor ∧ ∃ log, q = { p with log } := by
  cases checkedTo_of_eq h with
  | expired time watermark log ttlEnabled hmax hseen below =>
    have hsame : p.seeing change time = p.watermark := by
      rw [hseen] at below
      unfold seeing at below ⊢
      split
      · next brings =>
        rw [if_pos brings] at below
        exact observe_of_below ttlEnabled below
      · rfl
    obtain rfl : watermark = p.watermark := hseen.trans hsame
    exact ⟨time, hmax, ⟨ttlEnabled, below⟩, rfl, log, rfl⟩

/-- A record that is found expired has moved nothing. -/
lemma checkRecordTime_skipped {q : Partition} {record : Record} {reason : SkipReason}
    (h : p.checkRecordTime record = (some reason, q)) :
    ∃ time, p.Expired time ∧ reason = .outOfTtl time p.floor ∧ q = p := by
  unfold checkRecordTime at h
  split at h
  · next ttlEnabled =>
    cases htime : p.settings.timeColumn.bind record.version.time? with
    | none =>
      rw [htime] at h
      cases h
    | some time =>
      rw [htime] at h
      dsimp only at h
      split at h
      · next hbelow =>
        rw [observe, observe_of_below ttlEnabled hbelow] at h hbelow
        cases h
        exact ⟨time, ⟨ttlEnabled, hbelow⟩, rfl, rfl⟩
      · cases h
  · cases h

/-! ## Calls that are skipped -/

/-- Why an operation on segments is skipped. -/
inductive SkippedFor (p : Partition) (change : SegmentChange) : SkipReason → Prop
  | empty (hkind : change.target.kind = .empty) : SkippedFor p change .emptySegment
  | stopped (hgate : p.gate.enter? = none) : SkippedFor p change .stopped
  | expired (gate : Gate) (time : Binary64) (hgate : p.gate.enter? = some gate)
    (hmax : p.maxTime change.target = .ok time) (hexpired : p.Expired time) :
    SkippedFor p change (.outOfTtl time p.floor)

lemma start_skipped {q : Partition} {change : SegmentChange} {reason : SkipReason}
    (h : p.start change = (some (.ok (.skipped reason)), q)) :
    p.SkippedFor change reason ∧ ∃ log, q = { p with log } := by
  generalize hanswer : some (Except.ok (SegmentOutcome.skipped reason)) = answer at h
  cases startedTo_of_eq h with
  | empty log hkind =>
    cases hanswer
    exact ⟨.empty hkind, log, rfl⟩
  | unsupported => cases hanswer
  | stopped log outside =>
    cases hanswer
    exact ⟨.stopped outside, log, rfl⟩
  | ended gate result q hsealed inside check =>
    cases result with
    | error e => cases hanswer
    | ok outcome =>
      cases hanswer
      obtain ⟨time, hmax, hexpired, rfl, hframe⟩ := checkTime_skipped check
      exact ⟨.expired gate time inside hmax hexpired, hframe⟩
  | begun => cases hanswer

/-- The second half of an operation never skips anything. -/
lemma perform_not_skipped (p : Partition) (change : SegmentChange) (reason : SkipReason) :
    (p.perform change).1 ≠ .ok (.skipped reason) := by
  have hperformed := p.perform_performed change
  generalize (p.perform change).1 = result at hperformed ⊢
  generalize (p.perform change).2.index = index at hperformed
  generalize (p.perform change).2.log = log at hperformed
  cases hperformed <;> simp

lemma change_skipped {change : SegmentChange} {reason : SkipReason}
    (h : (p.change change).1 = .ok (.skipped reason)) :
    p.SkippedFor change reason ∧ ∃ log, (p.change change).2 = { p with log } := by
  rcases hstart : p.start change with ⟨_ | result, q⟩
  · rw [change_of_start_none hstart] at h
    have hnot := q.perform_not_skipped change reason
    generalize (q.perform change).1 = result at h hnot
    cases result with
    | error e => cases h
    | ok outcome => exact absurd (congrArg Except.ok (Except.ok.inj h)) hnot
  · rw [change_of_start_some hstart] at h ⊢
    obtain rfl : result = .ok (.skipped reason) := h
    exact start_skipped hstart

lemma ingest_skipped {segment : SegmentId} {record : Record} {reason : SkipReason}
    (h : (p.ingest segment record).1 = .ok (.skipped reason)) :
    (reason = .stopped ∨ ∃ time, p.Expired time ∧ reason = .outOfTtl time p.floor) ∧
      ∃ log, (p.ingest segment record).2 = { p with log } := by
  have hdone := p.ingest_ingestedTo segment record
  rw [h] at hdone
  generalize hresult : Except.ok (RecordOutcome.skipped reason) = result at hdone
  generalize (p.ingest segment record).2 = q at hdone ⊢
  cases hdone with
  | stopped log =>
    cases hresult
    exact ⟨.inl rfl, log, rfl⟩
  | expired gate watermark found inside check =>
    cases hresult
    obtain ⟨time, hexpired, rfl, hsame⟩ := checkRecordTime_skipped check
    exact ⟨.inr ⟨time, hexpired, rfl⟩, p.log, hsame⟩
  | offered gate watermark =>
    rw [(offerRecord_eq { p with watermark } segment record).1] at hresult
    -- whatever the index answers, it is no skip
    generalize (applyRecord { p with watermark } watermark segment record).1 = answer at hresult
    cases answer <;> cases hresult

lemma sweep_skipped {reason : SkipReason} (h : p.sweep.1 = .ok (.skipped reason)) :
    (reason = .ttlDisabled ∨ reason = .stopped) ∧ ∃ log, p.sweep.2 = { p with log } := by
  have hdone := p.sweep_sweptTo
  rw [h] at hdone
  generalize p.sweep.2 = q at hdone ⊢
  cases hdone with
  | lasting => exact ⟨.inl rfl, p.log, rfl⟩
  | stopped log => exact ⟨.inr rfl, log, rfl⟩

/-- A call is skipped for a reason. -/
def Skips (p : Partition) (reason : SkipReason) : Call → Prop
  | .change change => (p.change change).1 = .ok (.skipped reason)
  | .ingest segment record => (p.ingest segment record).1 = .ok (.skipped reason)
  | .sweep => p.sweep.1 = .ok (.skipped reason)
  | .stop | .close => False

/-- **A skip changes nothing.**  A call that is skipped, for whatever reason, leaves the index,
the watermark, the store, the gauges and timers and the gate as they were; only the log may
grow.  If the reason is an expired time, then the floor is the one from before the call, and
the time does not move the watermark. -/
theorem skip_changes_nothing {call : Call} {reason : SkipReason} (skipped : p.Skips reason call) :
    (∃ log, p.call call = { p with log }) ∧
      ∀ time floor, reason = .outOfTtl time floor →
        floor = p.floor ∧ time < floor ∧ p.watermark.observe time = p.watermark := by
  have hexpired (time : Binary64) (h : p.Expired time) (found floor : Binary64)
      (hreason : SkipReason.outOfTtl time p.floor = .outOfTtl found floor) :
      floor = p.floor ∧ found < floor ∧ p.watermark.observe found = p.watermark := by
    cases hreason
    exact ⟨rfl, h.below, h.observe_watermark⟩
  cases call with
  | change change =>
    obtain ⟨hreason, hframe⟩ := change_skipped skipped
    refine ⟨hframe, fun found floor heq => ?_⟩
    cases hreason with
    | empty => cases heq
    | stopped => cases heq
    | expired gate time hgate hmax h => exact hexpired time h found floor heq
  | ingest segment record =>
    obtain ⟨rfl | ⟨time, h, rfl⟩, hframe⟩ := ingest_skipped skipped
    · exact ⟨hframe, fun _ _ heq => nomatch heq⟩
    · exact ⟨hframe, hexpired time h⟩
  | sweep =>
    obtain ⟨rfl | rfl, hframe⟩ := sweep_skipped skipped
    · exact ⟨hframe, fun _ _ heq => nomatch heq⟩
    · exact ⟨hframe, fun _ _ heq => nomatch heq⟩
  | stop => cases skipped
  | close => cases skipped

end Partition

namespace Sample

/-- A partition that has seen the time 50, so that what is older than 40 is expired. -/
def aged : Partition := fading.run [.change (.add aging)]

/-- A segment whose newest record is older than that. -/
def belated : Segment := segment 2 [record 3 0 (.int 39)]

end Sample

open Sample in
/-- A segment that comes too late is skipped, and the watermark has not seen it. -/
theorem skip_changes_nothing_belated :
    aged.Skips (.outOfTtl (.ofInt 39) (.ofInt 40)) (.change (.add belated)) ∧
      (∃ log, aged.call (.change (.add belated)) = { aged with log }) ∧
      aged.watermark.observe (.ofInt 39) = aged.watermark := by
  have hskips : aged.Skips (.outOfTtl (.ofInt 39) (.ofInt 40)) (.change (.add belated)) := by
    change (aged.change (.add belated)).1 = _
    decide +kernel
  obtain ⟨hframe, hexpired⟩ := Partition.skip_changes_nothing hskips
  exact ⟨hskips, hframe, (hexpired _ _ rfl).2.2⟩

end PartitionKeys
