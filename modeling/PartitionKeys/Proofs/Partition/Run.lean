/-
# Runs of a partition

A partition takes one call after the other; what every call keeps holds after every run.  What
a call does to the index is one of a few things: nothing, one call of the index, or the calls
of a pass and what follows it.  So a property that the index keeps through all its calls is
kept by every run.
-/
import PartitionKeys.Partition.Shutdown
import PartitionKeys.Partition.Sweep
import PartitionKeys.Proofs.Index.WellFormed
import PartitionKeys.Proofs.Partition.Ingest

namespace PartitionKeys

/-- A call of a partition. -/
inductive Call where
  | change (change : SegmentChange)
  | ingest (segment : SegmentId) (record : Record)
  | sweep
  | stop
  | close

namespace Partition

/-- The partition after a call. -/
def call (p : Partition) : Call → Partition
  | .change change => (p.change change).2
  | .ingest segment record => (p.ingest segment record).2
  | .sweep => p.sweep.2
  | .stop => p.stop
  | .close => p.closeNow.2

/-- The partition after some calls, one after the other. -/
def run (p : Partition) (calls : List Call) : Partition := calls.foldl call p

/-- What every call keeps, every run keeps. -/
lemma run_induction {motive : Partition → Prop} {calls : List Call} {p : Partition}
    (hcall : ∀ p, ∀ call ∈ calls, motive p → motive (p.call call)) (h : motive p) :
    motive (p.run calls) := by
  induction calls generalizing p with
  | nil => exact h
  | cons call rest ih =>
    exact ih (fun p other hmem => hcall p other (List.mem_cons_of_mem _ hmem))
      (hcall p call List.mem_cons_self h)

@[simp] lemma run_concat (p : Partition) (calls : List Call) (call : Call) :
    p.run (calls ++ [call]) = (p.run calls).call call := by
  simp [run]

/-! ## Sweeps -/

/-- What a sweep answers and leaves behind.  Inside the gate the index is swept in any case; the
gauge is set only if the watermark could be persisted. -/
inductive SweptTo (p : Partition) : SweepResult → Partition → Prop
  | lasting (ttlDisabled : p.settings.ttlEnabled = false) :
    SweptTo p (.ok (.skipped .ttlDisabled)) p
  | stopped (log : List Event) (outside : p.gate.enter? = none) :
    SweptTo p (.ok (.skipped .stopped)) { p with log }
  | failed (e : StoreError) (store : WatermarkStore) (ttlEnabled : p.settings.ttlEnabled = true)
    (refused : p.store.persist p.watermark.time = (.error e, store)) :
    SweptTo p (.error (.store e)) { p with index := (p.index.sweep p.floor).2, store }
  | swept (store : WatermarkStore) (log : List Event) (ttlEnabled : p.settings.ttlEnabled = true)
    (persisted : p.store.persist p.watermark.time = (.ok (), store)) :
    SweptTo p (.ok (.swept (p.index.sweep p.floor).1 p.floor))
      { p with
        index := (p.index.sweep p.floor).2
        store
        metrics := p.metrics.recordSample p.settings.table p.settings.kind.sweepTimer
        log }.refreshGauge

lemma sweep_sweptTo (p : Partition) : SweptTo p p.sweep.1 p.sweep.2 := by
  unfold sweep
  split
  · next ttlEnabled =>
    cases hgate : p.gate.enter? with
    | none => exact .stopped _ hgate
    | some gate =>
      have hleave := Gate.leave_of_enter? hgate
      dsimp only [sweepIndex]
      rcases hpersist : p.store.persist p.watermark.time with ⟨e | _, store⟩
      · simp only [leave, hleave]
        exact .failed e store ttlEnabled hpersist
      · simp only [leave, report, refreshGauge, setGauge, hleave]
        exact .swept store _ ttlEnabled hpersist
  · next lasting => exact .lasting (Bool.eq_false_iff.2 lasting)

namespace SweptTo

variable {p q : Partition} {result : SweepResult}

lemma settings (h : SweptTo p result q) : q.settings = p.settings := by cases h <;> rfl

lemma watermark (h : SweptTo p result q) : q.watermark = p.watermark := by cases h <;> rfl

lemma gate (h : SweptTo p result q) : q.gate = p.gate := by cases h <;> rfl

lemma index (h : SweptTo p result q) :
    q.index = p.index ∨ q.index = (p.index.sweep p.floor).2 := by
  cases h with
  | lasting => exact .inl rfl
  | stopped => exact .inl rfl
  | failed => exact .inr rfl
  | swept => exact .inr rfl

end SweptTo

lemma sweep_index (p : Partition) :
    p.sweep.2.index = p.index ∨ p.sweep.2.index = (p.index.sweep p.floor).2 :=
  p.sweep_sweptTo.index

lemma sweep_settings (p : Partition) : p.sweep.2.settings = p.settings := p.sweep_sweptTo.settings

lemma sweep_watermark (p : Partition) : p.sweep.2.watermark = p.watermark :=
  p.sweep_sweptTo.watermark

lemma sweep_gate (p : Partition) : p.sweep.2.gate = p.gate := p.sweep_sweptTo.gate

/-! ## What a call does to the index -/

lemma stop_frame (p : Partition) : ∃ gate log, p.stop = { p with gate, log } := by
  unfold stop
  split <;> exact ⟨_, _, rfl⟩

/-- A partition that closing may leave behind: the gate is as much stopped as before, and the
index is as before or has been closed. -/
def ClosedTo (p q : Partition) : Prop :=
  (q.index = p.index ∨ q.index = p.index.close.2) ∧
    ∃ gate metrics log, gate.stopped = p.gate.stopped ∧
      q = { p with index := q.index, gate, metrics, log }

lemma release_frame (p : Partition) : ClosedTo p p.release.2 := by
  unfold release ClosedTo
  dsimp only [report]
  rcases p.index.close with ⟨e | _, index⟩
  · refine ⟨.inr rfl, p.gate.reopen, _, _, ?_, rfl⟩
    unfold Gate.reopen
    split <;> rfl
  · exact ⟨.inr rfl, p.gate, _, _, rfl, rfl⟩

lemma closeWith_frame (p : Partition) (result : Except GateError CloseStatus) :
    ClosedTo p (p.closeWith result).2 := by
  cases result with
  | error e => exact ⟨.inl rfl, p.gate, p.metrics, p.log, rfl, rfl⟩
  | ok status =>
    cases status with
    | alreadyClosed => exact ⟨.inl rfl, p.gate, p.metrics, _, rfl, rfl⟩
    | drained => exact p.release_frame

/-- Whatever is done to the gate and the log first, closing goes on from there. -/
lemma ClosedTo.of_frame {p q : Partition} {gate : Gate} {log : List Event}
    (h : ClosedTo { p with gate, log } q) (hstopped : gate.stopped = p.gate.stopped) :
    ClosedTo p q := by
  obtain ⟨hindex, gate', metrics, log', hgate, hframe⟩ := h
  exact ⟨hindex, gate', metrics, log', hgate.trans hstopped, hframe⟩

lemma closeNow_frame (p : Partition) : ClosedTo p p.closeNow.2 := by
  have hstopped : p.gate.enterCloser.2.stopped = p.gate.stopped := by
    unfold Gate.enterCloser
    split
    · rfl
    split
    · rfl
    split <;> rfl
  unfold closeNow beginClose
  rcases henter : p.gate.enterCloser with ⟨entry, gate⟩
  rw [henter] at hstopped
  cases entry with
  | refused e => exact (closeWith_frame { p with gate } (.error e)).of_frame hstopped
  | finished status => exact (closeWith_frame { p with gate } (.ok status)).of_frame hstopped
  | waiting pending =>
    -- nobody else runs, so the wait is given up at once
    have hgave : gate.giveUp.2.stopped = gate.stopped := by
      unfold Gate.giveUp
      split <;> rfl
    rcases hgive : gate.giveUp with ⟨result, gate'⟩
    rw [hgive] at hgave
    simp only [abandonClose, report, hgive]
    exact (closeWith_frame { p with gate := gate', log := p.log ++ [.waiting pending] }
      result).of_frame (hgave.trans hstopped)

/-- Closing leaves the entries. -/
lemma get?_closeNow (p : Partition) : p.closeNow.2.index.get? = p.index.get? := by
  rcases p.closeNow_frame.1 with heq | heq
  · rw [heq]
  · rw [heq, KeyIndex.get?_close]

/-- Calls leave the settings alone, and but for sweeps the store. -/
lemma call_frame (p : Partition) {call : Call} (hsweep : call ≠ .sweep) :
    ∃ index watermark metrics gate log,
      p.call call = { p with index, watermark, metrics, gate, log } := by
  cases call with
  | change change =>
    obtain ⟨index, watermark, metrics, log, hframe⟩ := p.change_frame change
    exact ⟨index, watermark, metrics, p.gate, log, hframe⟩
  | ingest segment record =>
    obtain ⟨index, watermark, metrics, log, hframe⟩ := p.ingest_frame segment record
    exact ⟨index, watermark, metrics, p.gate, log, hframe⟩
  | sweep => exact absurd rfl hsweep
  | stop =>
    obtain ⟨gate, log, hframe⟩ := p.stop_frame
    exact ⟨p.index, p.watermark, p.metrics, gate, log, hframe⟩
  | close =>
    obtain ⟨-, gate, metrics, log, -, hframe⟩ := p.closeNow_frame
    exact ⟨p.closeNow.2.index, p.watermark, metrics, gate, log, hframe⟩

lemma call_settings (p : Partition) (call : Call) : (p.call call).settings = p.settings := by
  by_cases hsweep : call = .sweep
  · subst hsweep
    exact p.sweep_settings
  · obtain ⟨_, _, _, _, _, hframe⟩ := p.call_frame hsweep
    rw [hframe]

/-- Nothing but a sweep persists the watermark. -/
lemma call_store (p : Partition) {call : Call} (hsweep : call ≠ .sweep) :
    (p.call call).store = p.store := by
  obtain ⟨_, _, _, _, _, hframe⟩ := p.call_frame hsweep
  rw [hframe]

lemma run_settings (p : Partition) (calls : List Call) : (p.run calls).settings = p.settings := by
  refine run_induction (motive := fun q => q.settings = p.settings) ?_ rfl
  exact fun q call _ h => (q.call_settings call).trans h

end Partition

/-! ## What an index keeps -/

namespace KeyIndex

variable {P : KeyIndex → Prop}

lemma KeptInUse.passRun (kept : KeptInUse P) (o : Offering) (records : List Record) (pass : Pass)
    (h : P pass.index) : P (Pass.run o records pass).2.index := by
  induction records generalizing pass with
  | nil => exact h
  | cons record rest ih =>
    have hnext := kept.apply pass.index (o.key record) (o.entry record).2 o.terms h
    simp only [Pass.run, Offering.entry_fst]
    generalize pass.index.apply (o.key record) (o.entry record).2 o.terms = call at hnext ⊢
    obtain ⟨e | update, index⟩ := call
    · exact hnext
    · refine ih _ ?_
      rw [Pass.note_index]
      exact hnext

lemma KeptInUse.rollBack (kept : KeptInUse P) (journal : List Write) {i : KeyIndex} (h : P i) :
    P (i.rollBack journal).2 := by
  induction journal generalizing i with
  | nil => exact h
  | cons write rest ih => exact ih (kept.restore i write.key write.written write.displaced h)

lemma KeptInUse.removeOwned (kept : KeptInUse P) (hash : KeyHash) (segment : SegmentId)
    (records : List Record) {i : KeyIndex} (h : P i) :
    P (i.removeOwned hash segment records).2 := by
  induction records generalizing i with
  | nil => exact h
  | cons record rest ih => exact ih (kept.remove i (hash.apply record.key) ⟨segment, record.doc⟩ h)

end KeyIndex

namespace Partition

variable {P : KeyIndex → Prop}

lemma perform_keptInUse (kept : KeyIndex.KeptInUse P) (p : Partition) (change : SegmentChange)
    (h : P p.index) : P (p.perform change).2.index := by
  have hperformed := p.perform_performed change
  generalize (p.perform change).1 = result at hperformed
  generalize (p.perform change).2.index = index at hperformed ⊢
  generalize (p.perform change).2.log = log at hperformed
  cases hperformed with
  | unread => exact h
  | removed segment records => exact kept.removeOwned _ _ _ h
  | refused e pass hpass =>
    obtain ⟨o, records, hrun⟩ := pass?_run hpass
    have hpass := kept.passRun o records { index := p.index } h
    rw [← hrun] at hpass
    exact kept.rollBack _ hpass
  | added segment records pass _ _ hrun =>
    have hpass := kept.passRun (p.offering change none) records { index := p.index } h
    rw [hrun] at hpass
    exact hpass
  | replaced old new dropped records pass _ _ _ hrun =>
    have hpass := kept.passRun (p.offering change (some (old.id, dropped))) records
      { index := p.index } h
    rw [hrun] at hpass
    exact kept.removeOwned _ _ _ hpass

lemma change_keptInUse (kept : KeyIndex.KeptInUse P) (p : Partition) (change : SegmentChange)
    (h : P p.index) : P (p.change change).2.index := by
  rcases p.change_index change with heq | ⟨watermark, gate, heq⟩
  · rw [heq]
    exact h
  · rw [heq]
    exact perform_keptInUse kept { p with watermark, gate } change h

/-- What an index keeps while it is in use, every call keeps that does not close it. -/
lemma call_keptInUse (kept : KeyIndex.KeptInUse P) (p : Partition) {call : Call}
    (hclose : call ≠ .close) (h : P p.index) : P (p.call call).index := by
  cases call with
  | change change => exact change_keptInUse kept p change h
  | ingest segment record =>
    have hingested := p.ingest_ingested segment record
    change P (p.ingest segment record).2.index
    generalize (p.ingest segment record).1 = result at hingested
    generalize (p.ingest segment record).2.index = index at hingested ⊢
    cases hingested with
    | skipped => exact h
    | refused => exact kept.apply _ _ _ _ h
    | indexed => exact kept.apply _ _ _ _ h
  | sweep =>
    change P p.sweep.2.index
    rcases p.sweep_index with heq | heq
    · rw [heq]
      exact h
    · rw [heq]
      exact kept.sweep _ _ h
  | stop =>
    obtain ⟨_, _, hframe⟩ := p.stop_frame
    rw [Partition.call, hframe]
    exact h
  | close => exact absurd rfl hclose

/-- What an index keeps through all its calls, every run keeps. -/
theorem run_kept (kept : KeyIndex.Kept P) (p : Partition) (calls : List Call) (h : P p.index) :
    P (p.run calls).index := by
  refine run_induction (motive := fun p => P p.index) (fun p call _ h => ?_) h
  by_cases hclose : call = .close
  · subst hclose
    change P p.closeNow.2.index
    rcases p.closeNow_frame.1 with heq | heq
    · rw [heq]
      exact h
    · rw [heq]
      exact kept.close _ h
  · exact call_keptInUse kept.inUse p hclose h

/-! ## A partition that has been stopped -/

/-- A result that tells that an operation did nothing. -/
inductive Idle : SegmentResult → Prop
  | skipped (reason : SkipReason) : Idle (.ok (.skipped reason))
  | unsupported (segment : String) (kind : SegmentKind) (table : String) :
    Idle (.error (.unsupportedSegment segment kind table))

lemma start_of_stopped {p : Partition} (stopped : p.gate.stopped = true)
    (change : SegmentChange) :
    ∃ result log, Idle result ∧ p.start change = (some result, { p with log }) := by
  have houtside := Gate.enter?_of_stopped stopped
  rcases hstart : p.start change with ⟨answer, q⟩
  cases startedTo_of_eq hstart with
  | empty log => exact ⟨_, log, .skipped _, rfl⟩
  | unsupported => exact ⟨_, p.log, .unsupported _ _ _, rfl⟩
  | stopped log => exact ⟨_, log, .skipped _, rfl⟩
  | ended gate result q hsealed inside => cases houtside.symm.trans inside
  | begun gate q hsealed inside => cases houtside.symm.trans inside

lemma change_of_stopped {p : Partition} (stopped : p.gate.stopped = true)
    (change : SegmentChange) :
    ∃ result log, Idle result ∧ p.change change = (result, { p with log }) := by
  obtain ⟨result, log, hidle, hstart⟩ := start_of_stopped stopped change
  exact ⟨result, log, hidle, change_of_start_some hstart⟩

lemma ingest_of_stopped {p : Partition} (stopped : p.gate.stopped = true)
    (segment : SegmentId) (record : Record) :
    ∃ log, p.ingest segment record = (.ok (.skipped .stopped), { p with log }) := by
  rw [ingest, Gate.enter?_of_stopped stopped]
  exact ⟨_, rfl⟩

lemma sweep_of_stopped {p : Partition} (stopped : p.gate.stopped = true) :
    ∃ reason log, p.sweep = (.ok (.skipped reason), { p with log }) := by
  rw [sweep, Gate.enter?_of_stopped stopped]
  split
  · exact ⟨_, _, rfl⟩
  · exact ⟨_, p.log, rfl⟩

/-- A partition that has been stopped does nothing but report, unless it is closed. -/
lemma call_of_stopped {p : Partition} (stopped : p.gate.stopped = true) {call : Call}
    (hclose : call ≠ .close) : ∃ log, p.call call = { p with log } := by
  cases call with
  | change change =>
    obtain ⟨_, log, -, heq⟩ := change_of_stopped stopped change
    exact ⟨log, congrArg Prod.snd heq⟩
  | ingest segment record =>
    obtain ⟨log, heq⟩ := ingest_of_stopped stopped segment record
    exact ⟨log, congrArg Prod.snd heq⟩
  | sweep =>
    obtain ⟨_, log, heq⟩ := sweep_of_stopped stopped
    exact ⟨log, congrArg Prod.snd heq⟩
  | stop =>
    rw [Partition.call, stop, Gate.stop?, if_pos stopped]
    exact ⟨_, rfl⟩
  | close => exact absurd rfl hclose

end Partition

end PartitionKeys
