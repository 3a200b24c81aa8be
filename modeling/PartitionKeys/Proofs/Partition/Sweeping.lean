/-
# Sweeps cannot be told apart from no sweeps

Between two calls of a run, sweeps may come in.  They drop entries that are stale, and since
the floor never falls these would have counted as absent ever after: a record that meets one
is inserted, a roll-back puts it back as stale as it was, and removing it changes only how many
keys are reported as dropped.  So the two runs stay in step: at the same watermark and with the
same entries above the floor, they give the same answers, numbers of dropped keys aside.
-/
import PartitionKeys.Proofs.Partition.Gauge
import PartitionKeys.Proofs.Partition.Staleness
import PartitionKeys.Proofs.Partition.Timely

namespace PartitionKeys

/-! ## Answers without the number of dropped keys -/

/-- The counts without the number of dropped keys. -/
def Counts.exceptRemoved (c : Counts) : Counts := { c with removed := 0 }

/-- What became of a segment, without the number of dropped keys. -/
def SegmentOutcome.exceptRemoved : SegmentOutcome → SegmentOutcome
  | .applied counts => .applied counts.exceptRemoved
  | .skipped reason => .skipped reason

namespace Partition

/-! ## Two partitions in step -/

/-- Two partitions that differ neither in their settings nor in watermark and gate. -/
structure Alongside (p q : Partition) : Prop where
  settings : q.settings = p.settings
  watermark : q.watermark = p.watermark
  gate : q.gate = p.gate

namespace Alongside

variable {p q : Partition}

lemma eq_with (h : Alongside p q) :
    ∃ index store metrics log, q = { p with index, store, metrics, log } := by
  obtain ⟨settings, index, watermark, store, metrics, gate, log⟩ := q
  obtain ⟨rfl, rfl, rfl⟩ := h
  exact ⟨index, store, metrics, log, rfl⟩

lemma operationFailure (h : Alongside p q) (change : SegmentChange) :
    q.operationFailure change = p.operationFailure change := by
  funext cause
  rw [Partition.operationFailure, Partition.operationFailure, h.settings]

/-- Looking at the time of a segment depends on the settings and the watermark. -/
lemma checkTime (h : Alongside p q) (change : SegmentChange) :
    (q.checkTime change).1 = (p.checkTime change).1 ∧
      Alongside (p.checkTime change).2 (q.checkTime change).2 := by
  obtain ⟨index, store, metrics, log, rfl⟩ := h.eq_with
  have hmax : maxTime { p with index, store, metrics, log } change.target =
      p.maxTime change.target := rfl
  unfold Partition.checkTime
  rw [hmax]
  dsimp only
  split
  · cases p.maxTime change.target with
    | error e => exact ⟨rfl, rfl, rfl, rfl⟩
    | ok time =>
      cases change.bringsRecords with
      | false =>
        by_cases hbelow : time < p.watermark.floor p.settings.ttl <;>
          simp only [Partition.floor, hbelow, Bool.false_eq_true, if_true, if_false] <;>
          exact ⟨trivial, rfl, rfl, rfl⟩
      | true =>
        by_cases hbelow : time < (p.watermark.observe time).floor p.settings.ttl <;>
          simp only [observe, Partition.floor, hbelow, if_true, if_false] <;>
          exact ⟨trivial, rfl, rfl, rfl⟩
  · exact ⟨rfl, rfl, rfl, rfl⟩

lemma checkRecordTime (h : Alongside p q) (record : Record) :
    (q.checkRecordTime record).1 = (p.checkRecordTime record).1 ∧
      Alongside (p.checkRecordTime record).2 (q.checkRecordTime record).2 := by
  obtain ⟨index, store, metrics, log, rfl⟩ := h.eq_with
  unfold Partition.checkRecordTime
  dsimp only
  split
  · cases p.settings.timeColumn.bind record.version.time? with
    | none => exact ⟨rfl, rfl, rfl, rfl⟩
    | some time =>
      by_cases hbelow : time < (p.watermark.observe time).floor p.settings.ttl <;>
        simp only [observe, Partition.floor, hbelow, if_true, if_false] <;>
        exact ⟨trivial, rfl, rfl, rfl⟩
  · exact ⟨rfl, rfl, rfl, rfl⟩

/-- The first half of an operation does not look at the index. -/
lemma start (h : Alongside p q) (change : SegmentChange) :
    (q.start change).1 = (p.start change).1 ∧
      Alongside (p.start change).2 (q.start change).2 := by
  obtain ⟨index, store, metrics, log, rfl⟩ := h.eq_with
  unfold Partition.start
  dsimp only
  split
  · exact ⟨rfl, rfl, rfl, rfl⟩
  split
  · exact ⟨rfl, rfl, rfl, rfl⟩
  cases p.gate.enter? with
  | none => exact ⟨rfl, rfl, rfl, rfl⟩
  | some gate =>
    obtain ⟨hanswer, halong⟩ := checkTime (p := { p with gate })
      (q := { p with gate, index, store, metrics, log }) ⟨rfl, rfl, rfl⟩ change
    dsimp only
    generalize Partition.checkTime { p with gate } change = checked at hanswer halong ⊢
    generalize Partition.checkTime { p with gate, index, store, metrics, log } change = other
      at hanswer halong ⊢
    obtain ⟨_ | result, r⟩ := checked <;> obtain ⟨_ | result', r'⟩ := other <;> cases hanswer
    · exact ⟨rfl, halong⟩
    · obtain ⟨_, _, _, _, rfl⟩ := halong.eq_with
      exact ⟨rfl, rfl, rfl, rfl⟩

end Alongside

/-- Two partitions alongside whose indexes agree above the floor. -/
structure InStep (p q : Partition) : Prop where
  alongside : Alongside p q
  index : p.index.AgreeAbove p.floor q.index

namespace InStep

variable {p q r : Partition}

lemma floor_eq (h : InStep p q) : q.floor = p.floor := by
  rw [floor, floor, h.alongside.settings, h.alongside.watermark]

lemma symm (h : InStep p q) : InStep q p where
  alongside := ⟨h.alongside.settings.symm, h.alongside.watermark.symm, h.alongside.gate.symm⟩
  index := h.floor_eq ▸ h.index.symm

lemma trans (hpq : InStep p q) (hqr : InStep q r) : InStep p r where
  alongside := ⟨hqr.alongside.settings.trans hpq.alongside.settings,
    hqr.alongside.watermark.trans hpq.alongside.watermark,
    hqr.alongside.gate.trans hpq.alongside.gate⟩
  index := hpq.index.trans (hpq.floor_eq ▸ hqr.index)

lemma leave (h : InStep p q) : InStep p.leave q.leave where
  alongside := ⟨h.alongside.settings, h.alongside.watermark,
    congrArg Gate.leave h.alongside.gate⟩
  index := h.index

/-! ## Operations on segments in step -/

/-- Undoing puts back what was there before, and after an accepted pass dropping looks at each
entry by itself. -/
lemma offerRecords (h : InStep p q) (ttlEnabled : p.settings.ttlEnabled = true)
    (change : SegmentChange) (old : Option (SegmentId × List Record)) (records : List Record) :
    (q.offerRecords change.target old records).1.map SegmentOutcome.exceptRemoved =
        (p.offerRecords change.target old records).1.map SegmentOutcome.exceptRemoved ∧
      (p.offerRecords change.target old records).2.index.AgreeAbove p.floor
        (q.offerRecords change.target old records).2.index := by
  obtain ⟨index, store, metrics, log, rfl⟩ := h.alongside.eq_with
  have hagree : p.index.AgreeAbove p.floor index := h.index
  have hfloor : (p.offering change old).terms.floor = some p.floor := if_pos ttlEnabled
  have hoffering : offering { p with index, store, metrics, log } change old =
      p.offering change old := rfl
  have hback := (KeyIndex.rollBack_journal (p.offering change old) records p.index).2
  have hback' := (KeyIndex.rollBack_journal (p.offering change old) records index).2
  obtain ⟨hanswer, hcounts, hpass⟩ := KeyIndex.AgreeAbove.passRun hfloor records
    (p := { index := p.index }) (q := { index }) hagree rfl
  rw [offerRecords_eq, offerRecords_eq, hoffering]
  dsimp only
  generalize Pass.run (p.offering change old) records { index := p.index } = run
    at hback hanswer hcounts hpass ⊢
  generalize Pass.run (p.offering change old) records { index } = run'
    at hback' hanswer hcounts hpass ⊢
  obtain ⟨_ | e, pass⟩ := run <;> obtain ⟨_ | e', pass'⟩ := run' <;> cases hanswer
  · have hresult : (.ok (.applied pass'.counts.exceptRemoved) : SegmentResult) =
        .ok (.applied pass.counts.exceptRemoved) := by
      rw [show pass'.counts = pass.counts from hcounts]
    cases old with
    | none => exact ⟨hresult, hpass⟩
    | some old => exact ⟨hresult, hpass.removeOwned p.settings.hash old.1 old.2⟩
  · refine ⟨rfl, hagree.of_get? hback hback' ?_⟩
    exact (KeyIndex.Twins.rollBack _ _).symm.trans
      (hpass.twins.trans (KeyIndex.Twins.rollBack _ _))

lemma perform (h : InStep p q) (ttlEnabled : p.settings.ttlEnabled = true)
    (change : SegmentChange) :
    (q.perform change).1.map SegmentOutcome.exceptRemoved =
        (p.perform change).1.map SegmentOutcome.exceptRemoved ∧
      InStep (p.perform change).2 (q.perform change).2 := by
  suffices hperform : (q.perform change).1.map SegmentOutcome.exceptRemoved =
        (p.perform change).1.map SegmentOutcome.exceptRemoved ∧
      (p.perform change).2.index.AgreeAbove p.floor (q.perform change).2.index by
    -- the second half moves nothing but the index, the gauges and the log
    obtain ⟨_, _, _, hp⟩ := p.perform_frame change
    obtain ⟨_, _, _, hq⟩ := q.perform_frame change
    rw [hp, hq] at hperform ⊢
    exact ⟨hperform.1, ⟨h.alongside.settings, h.alongside.watermark, h.alongside.gate⟩, hperform.2⟩
  have hoffer := h.offerRecords ttlEnabled change
  have hdrop := h.index.removeOwned p.settings.hash
  obtain ⟨index, store, metrics, log, rfl⟩ := h.alongside.eq_with
  have hread (segment : Segment) :
      readAll { p with index, store, metrics, log } segment = p.readAll segment := rfl
  have hold : readOld { p with index, store, metrics, log } change.old? =
      p.readOld change.old? := rfl
  unfold Partition.perform
  rw [hread]
  cases p.readAll change.target with
  | error e => exact ⟨rfl, h.index⟩
  | ok records =>
    cases change with
    | remove segment => exact ⟨rfl, hdrop segment.id records⟩
    | add segment | replace old segment =>
      dsimp only
      rw [hold]
      split
      · exact ⟨rfl, h.index⟩
      · exact hoffer _ records

end InStep

lemma map_mapError {ε ε' α β : Type} (x : Except ε α) (f : ε → ε') (g : α → β) :
    (x.mapError f).map g = (x.map g).mapError f := by
  cases x <;> rfl

/-- An operation on segments has the same result in partitions in step, the number of dropped
keys aside, and they stay in step. -/
lemma InStep.change {p q : Partition} (h : InStep p q) (timed : p.Timed) (change : SegmentChange) :
    (q.change change).1.map SegmentOutcome.exceptRemoved =
        (p.change change).1.map SegmentOutcome.exceptRemoved ∧
      InStep (p.change change).2 (q.change change).2 := by
  obtain ⟨hanswer, halong⟩ := h.alongside.start change
  have hrises := p.start_observed change
  rcases hp : p.start change with ⟨_ | result, p'⟩ <;>
    rcases hq : q.start change with ⟨_ | result', q'⟩ <;>
    rw [hp, hq] at hanswer halong <;> rw [hp] at hrises <;> cases hanswer
  · obtain ⟨watermark, gate, -, rfl⟩ := start_none hp
    obtain ⟨watermark', gate', -, rfl⟩ := start_none hq
    rw [change_of_start_none hp, change_of_start_none hq]
    -- both are inside the gate, at a floor that has not fallen
    have hinside : InStep { p with watermark, gate }
        { q with watermark := watermark', gate := gate' } :=
      ⟨halong, h.index.mono (timed.floor_le rfl hrises)⟩
    obtain ⟨hresult, hperform⟩ := hinside.perform timed.ttlEnabled change
    refine ⟨?_, hperform.leave⟩
    rw [map_mapError, map_mapError, hresult, hperform.alongside.operationFailure]
  · obtain ⟨⟨watermark, log, rfl⟩, -⟩ := start_some hp
    obtain ⟨⟨watermark', log', rfl⟩, -⟩ := start_some hq
    rw [change_of_start_some hp, change_of_start_some hq]
    exact ⟨rfl, halong, h.index.mono (timed.floor_le rfl hrises)⟩

/-! ## The other calls in step -/

namespace InStep

variable {p q : Partition}

lemma offerRecord (h : InStep p q) (ttlEnabled : p.settings.ttlEnabled = true)
    (segment : SegmentId) (record : Record) :
    (q.offerRecord segment record).1 = (p.offerRecord segment record).1 ∧
      InStep (p.offerRecord segment record).2 (q.offerRecord segment record).2 := by
  have hoffered : (q.applyRecord q.watermark segment record).1.map Update.outcome =
        (p.applyRecord p.watermark segment record).1.map Update.outcome ∧
      (p.applyRecord p.watermark segment record).2.AgreeAbove p.floor
        (q.applyRecord q.watermark segment record).2 := by
    obtain ⟨index, store, metrics, log, rfl⟩ := h.alongside.eq_with
    have hfloor : (p.terms .perColumn none).floor = some p.floor := if_pos ttlEnabled
    exact h.index.apply hfloor (p.keyOf record.key) (p.recordEntry segment record)
  obtain ⟨hp, hpindex⟩ := p.offerRecord_eq segment record
  obtain ⟨hq, hqindex⟩ := q.offerRecord_eq segment record
  rw [← hpindex, ← hqindex] at hoffered
  refine ⟨by rw [hp, hq, hoffered.1], ?_⟩
  obtain ⟨_, _, _, hpframe⟩ := p.offerRecord_frame segment record
  obtain ⟨_, _, _, hqframe⟩ := q.offerRecord_frame segment record
  rw [hpframe, hqframe] at hoffered ⊢
  exact ⟨⟨h.alongside.settings, h.alongside.watermark, h.alongside.gate⟩, hoffered.2⟩

/-- Taking in a record has the same result. -/
lemma ingest (h : InStep p q) (timed : p.Timed) (segment : SegmentId) (record : Record) :
    (q.ingest segment record).1 = (p.ingest segment record).1 ∧
      InStep (p.ingest segment record).2 (q.ingest segment record).2 := by
  have hsettled := h.alongside.gate
  cases hgate : p.gate.enter? with
  | none =>
    rw [Partition.ingest, Partition.ingest, hsettled, hgate]
    exact ⟨rfl, ⟨h.alongside.settings, h.alongside.watermark, hsettled⟩, h.index⟩
  | some gate =>
    obtain ⟨hanswer, halong⟩ := h.alongside.checkRecordTime record
    have hrises := p.checkRecordTime_observed record
    obtain ⟨watermark, hp⟩ := p.checkRecordTime_frame record
    obtain ⟨watermark', hq⟩ := q.checkRecordTime_frame record
    rw [ingest_of_enter hgate, ingest_of_enter (hsettled ▸ hgate)]
    generalize p.checkRecordTime record = checked at hanswer halong hrises hp ⊢
    generalize q.checkRecordTime record = checked' at hanswer halong hq ⊢
    obtain ⟨reason, p'⟩ := checked
    obtain ⟨reason', q'⟩ := checked'
    obtain rfl : reason' = reason := hanswer
    obtain rfl : p' = { p with watermark } := hp
    obtain rfl : q' = { q with watermark := watermark' } := hq
    have hchecked : InStep { p with watermark } { q with watermark := watermark' } :=
      ⟨halong, h.index.mono (timed.floor_le rfl hrises)⟩
    cases reason' with
    | some reason => exact ⟨rfl, hchecked⟩
    | none => exact hchecked.offerRecord timed.ttlEnabled segment record

lemma stop (h : InStep p q) : InStep p.stop q.stop := by
  have halong := h.alongside
  unfold Partition.stop
  rw [h.alongside.gate]
  cases p.gate.stop? with
  | none => exact ⟨⟨halong.settings, halong.watermark, halong.gate⟩, h.index⟩
  | some gate => exact ⟨⟨halong.settings, halong.watermark, rfl⟩, h.index⟩

lemma release (h : InStep p q) : InStep p.release.2 q.release.2 := by
  obtain ⟨hresult, hclose⟩ := h.index.close
  have halong := h.alongside
  unfold Partition.release
  dsimp only [report]
  generalize p.index.close = closed at hresult hclose ⊢
  generalize q.index.close = closed' at hresult hclose ⊢
  obtain ⟨result, index⟩ := closed
  obtain ⟨result', index'⟩ := closed'
  obtain rfl : result' = result := hresult
  cases result' with
  | error e =>
    exact ⟨⟨halong.settings, halong.watermark, congrArg Gate.reopen halong.gate⟩, hclose⟩
  | ok _ => exact ⟨⟨halong.settings, halong.watermark, halong.gate⟩, hclose⟩

lemma closeWith (h : InStep p q) (result : Except GateError CloseStatus) :
    InStep (p.closeWith result).2 (q.closeWith result).2 := by
  cases result with
  | error e => exact h
  | ok status =>
    cases status with
    | alreadyClosed =>
      exact ⟨⟨h.alongside.settings, h.alongside.watermark, h.alongside.gate⟩, h.index⟩
    | drained => exact h.release

lemma closeNow (h : InStep p q) : InStep p.closeNow.2 q.closeNow.2 := by
  have hmarked (gate : Gate) (log log' : List Event) :
      InStep { p with gate, log } { q with gate, log := log' } :=
    ⟨⟨h.alongside.settings, h.alongside.watermark, rfl⟩, h.index⟩
  unfold Partition.closeNow beginClose
  rw [h.alongside.gate]
  rcases p.gate.enterCloser with ⟨entry, gate⟩
  cases entry with
  | refused e => exact (hmarked gate p.log q.log).closeWith (.error e)
  | finished status => exact (hmarked gate p.log q.log).closeWith (.ok status)
  | waiting pending => exact (hmarked _ _ _).closeWith _

end InStep

/-- A sweep stays in step with what was there before it. -/
lemma inStep_sweep {p : Partition} (timed : p.Timed) : InStep p p.sweep.2 := by
  have hindex : p.index.AgreeAbove p.floor p.sweep.2.index := by
    rcases p.sweep_index with heq | heq
    · rw [heq]
      exact ⟨fun _ => rfl, .refl _⟩
    · rw [heq]
      exact KeyIndex.agreeAbove_sweep timed.wellFormed timed.isNaN_floor fun key entry hget =>
        (timed.holdsTimes key entry hget).time
  exact ⟨⟨p.sweep_settings, p.sweep_watermark, p.sweep_gate⟩, hindex⟩

lemma InStep.call {p q : Partition} (h : InStep p q) (hp : p.Timed) (hq : q.Timed)
    (call : Call) : InStep (p.call call) (q.call call) := by
  cases call with
  | change change => exact (h.change hp change).2
  | ingest segment record => exact (h.ingest hp segment record).2
  | sweep => exact (inStep_sweep hp).symm.trans (h.trans (inStep_sweep hq))
  | stop => exact h.stop
  | close => exact h.closeNow

/-! ## Runs with more sweeps -/

/-- The second list of calls is the first one with sweeps put in anywhere. -/
inductive WithSweeps : List Call → List Call → Prop
  | nil : WithSweeps [] []
  | both {calls extended : List Call} (call : Call) (h : WithSweeps calls extended) :
    WithSweeps (call :: calls) (call :: extended)
  | sweep {calls extended : List Call} (h : WithSweeps calls extended) :
    WithSweeps calls (.sweep :: extended)

lemma run_inStep {calls extended : List Call} (h : WithSweeps calls extended) {p q : Partition}
    (hstep : InStep p q) (hp : p.Timed) (hq : q.Timed)
    (timely : ∀ call ∈ calls, call.Timely p.settings.timeColumn) :
    InStep (p.run calls) (q.run extended) := by
  induction h generalizing p q with
  | nil => exact hstep
  | both call h ih =>
    have hcall := timely call List.mem_cons_self
    refine ih (hstep.call hp hq call) (hp.call hcall) ?_ fun other hmem => ?_
    · rw [← hstep.alongside.settings] at hcall
      exact hq.call hcall
    · rw [call_settings]
      exact timely other (List.mem_cons_of_mem _ hmem)
  | sweep h ih =>
    exact ih (hstep.trans (inStep_sweep hq)) hp (hq.call trivial) timely

/-- **Sweeps are invisible.**  Take a partition whose keys expire after a finite time and whose
times are numbers, a run of calls that bring in numbers, and the same run with sweeps put in
anywhere.  Both end at the same watermark with the same entries above the floor, and every
operation that comes next has the same error, the same skip or the same counts, but for the
number of dropped keys.  The beginnings of such runs are such runs again, so all this holds
after every call. -/
theorem sweeps_are_invisible {p : Partition} (timed : p.Timed) {calls extended : List Call}
    (h : WithSweeps calls extended)
    (timely : ∀ call ∈ calls, call.Timely p.settings.timeColumn) :
    (∀ change, ((p.run extended).change change).1.map SegmentOutcome.exceptRemoved =
        ((p.run calls).change change).1.map SegmentOutcome.exceptRemoved) ∧
      (∀ segment record,
        ((p.run extended).ingest segment record).1 = ((p.run calls).ingest segment record).1) ∧
      (p.run extended).watermark = (p.run calls).watermark ∧
      ∀ key, (p.run extended).index.live? (p.run extended).floor key =
        (p.run calls).index.live? (p.run calls).floor key := by
  have hstep : InStep (p.run calls) (p.run extended) :=
    run_inStep h ⟨⟨rfl, rfl, rfl⟩, fun _ => rfl, .refl _⟩ timed timed timely
  have hrun := timed.run timely
  refine ⟨fun change => (hstep.change hrun change).1,
    fun segment record => (hstep.ingest hrun segment record).1, hstep.alongside.watermark, ?_⟩
  intro key
  rw [hstep.floor_eq]
  exact hstep.index.live key

end Partition

open Sample in
/-- A key is expired, and one of two runs sweeps it away; then a new record of this key is
inserted in both. -/
theorem sweeps_are_invisible_expired :
    (fading.run [.change (.add aging)]).index.size = 2 ∧
      (fading.run [.change (.add aging), .sweep]).index.size = 1 ∧
      ((fading.run [.change (.add aging), .sweep]).change
        (.add (segment 2 [record 1 0 (.int 45)]))).1.map SegmentOutcome.exceptRemoved =
          .ok (.applied { inserted := 1 }) ∧
      ∀ key, (fading.run [.change (.add aging), .sweep]).index.live?
          (fading.run [.change (.add aging), .sweep]).floor key =
        (fading.run [.change (.add aging)]).index.live?
          (fading.run [.change (.add aging)]).floor key := by
  have timed : fading.Timed :=
    .of_empty (by decide +kernel) (by decide +kernel) (by decide +kernel) rfl
  have timely : ∀ call ∈ [Call.change (.add aging)], call.Timely fading.settings.timeColumn := by
    intro call hmem
    obtain rfl := List.mem_singleton.1 hmem
    refine Segment.timely_ofRecords (fun record hmem => ?_) _ _
    simp only [List.mem_cons, List.not_mem_nil, or_false] at hmem
    rcases hmem with rfl | rfl
    · show (Entry.timeOf _ _).isNaN = false
      decide +kernel
    · show (Entry.timeOf _ _).isNaN = false
      decide +kernel
  obtain ⟨hchange, -, -, hlive⟩ := Partition.sweeps_are_invisible timed
    (.both (.change (.add aging)) (.sweep .nil)) timely
  refine ⟨by decide +kernel, by decide +kernel, ?_, hlive⟩
  rw [hchange]
  decide +kernel

end PartitionKeys
