/-
# Stopping and closing in a run

Calls come one after the other, so every operation has left the gate before the next call is
made.  A partition that starts with an open gate is therefore in one of three stages: it runs;
it has been stopped, with nobody inside; or it has been closed.  `Stage` says how the calls so
far and the answers of the index to the closes that have reached it go with each of them, and
`run_stage` that every run ends in a stage.  What a partition answers at each stage then gives
the discipline of shutting down: nothing changes after a stop, a failed close can be tried
again, and the index is closed once.
-/
import PartitionKeys.Proofs.Partition.Gauge
import PartitionKeys.Proofs.Partition.Staleness

namespace PartitionKeys

/-- The gate of a partition that has been stopped and has nobody inside. -/
def Gate.stopping : Gate := ⟨true, false, 0⟩

/-- The gate of a partition that has been closed. -/
def Gate.shut : Gate := ⟨true, true, 0⟩

namespace KeyIndex

/-- How often an index was to be closed, and whether it is, changes by closing it only. -/
lemma keptInUse_closing (n : ℕ) (closed : Bool) :
    KeptInUse fun i => i.closeCalls = n ∧ i.isClosed = closed where
  apply i key proposed t h := by
    obtain ⟨-, -, hsame⟩ := i.apply_verdict key proposed t
    obtain ⟨backend, hframe⟩ := i.apply_frame key proposed t
    refine ⟨?_, hsame.trans h.2⟩
    rw [hframe]
    exact h.1
  restore i key written previous h :=
    ⟨h.1, (Twins.restore i key written previous).closed.trans h.2⟩
  remove i key expected h := ⟨h.1, (Twins.remove i key expected).closed.trans h.2⟩
  sweep i floor h := ⟨h.1, (Twins.sweep i floor).closed.trans h.2⟩

@[simp] lemma closeCalls_close (i : KeyIndex) : i.close.2.closeCalls = i.closeCalls + 1 := by
  unfold close
  dsimp only
  split <;> rfl

end KeyIndex

namespace Partition

/-! ## The answers of the index to being closed -/

/-- What the index answers when a call closes it; nothing, if the call does not reach it. -/
def released (p : Partition) (call : Call) : List (Except IndexError Unit) :=
  if (p.call call).index.closeCalls = p.index.closeCalls then [] else [p.index.close.1]

/-- The answers of the index to being closed during some calls, oldest first. -/
def releases (p : Partition) : List Call → List (Except IndexError Unit)
  | [] => []
  | call :: rest => p.released call ++ (p.call call).releases rest

lemma releases_concat (p : Partition) (calls : List Call) (call : Call) :
    p.releases (calls ++ [call]) = p.releases calls ++ (p.run calls).released call := by
  induction calls generalizing p with
  | nil => simp [releases, run]
  | cons first rest ih => simp [releases, run, ih]

lemma released_of_ne_close (p : Partition) {call : Call} (hclose : call ≠ .close) :
    p.released call = [] := by
  have hkept := call_keptInUse (KeyIndex.keptInUse_closing p.index.closeCalls p.index.isClosed) p
    hclose ⟨rfl, rfl⟩
  exact if_pos hkept.1

/-- The calls that have reached the index are those that it has answered. -/
lemma closeCalls_run (p : Partition) (calls : List Call) :
    (p.run calls).index.closeCalls = p.index.closeCalls + (p.releases calls).length := by
  induction calls using List.reverseRecOn with
  | nil => rfl
  | append_singleton calls call ih =>
    rw [run_concat, releases_concat, List.length_append, ← Nat.add_assoc, ← ih]
    unfold released
    split
    next hsame => exact hsame
    next hmoved =>
      by_cases hclose : call = .close
      · subst hclose
        change (p.run calls).closeNow.2.index.closeCalls = _
        change (p.run calls).closeNow.2.index.closeCalls ≠ _ at hmoved
        rcases (p.run calls).closeNow_frame.1 with heq | heq
        · exact absurd (congrArg KeyIndex.closeCalls heq) hmoved
        · rw [heq, KeyIndex.closeCalls_close]
          rfl
      · have hkept := call_keptInUse
          (KeyIndex.keptInUse_closing (p.run calls).index.closeCalls (p.run calls).index.isClosed)
          (p.run calls) hclose ⟨rfl, rfl⟩
        exact absurd hkept.1 hmoved

/-! ## Closing at each stage -/

/-- Every operation leaves the gate as it has found it. -/
lemma call_gate (p : Partition) {call : Call} (hstop : call ≠ .stop) (hclose : call ≠ .close) :
    (p.call call).gate = p.gate := by
  cases call with
  | change change =>
    obtain ⟨_, _, _, _, hframe⟩ := p.change_frame change
    rw [Partition.call, hframe]
  | ingest segment record =>
    obtain ⟨_, _, _, _, hframe⟩ := p.ingest_frame segment record
    rw [Partition.call, hframe]
  | sweep => exact p.sweep_gate
  | stop => exact absurd rfl hstop
  | close => exact absurd rfl hclose

/-- The first operation to enter an open gate. -/
lemma enter?_of_open {p : Partition} (h : p.gate = {}) :
    p.gate.enter? = some ⟨false, false, 2⟩ := by
  rw [h]
  rfl

lemma closeNow_of_open {p : Partition} (h : p.gate.stopped = false) :
    p.closeNow = (.error (.gate .notStopped), p) := by
  rw [closeNow, beginClose, Gate.enterCloser, h]
  rfl

lemma stop_of_open {p : Partition} (h : p.gate = {}) :
    p.stop = { p with gate := .stopping }.report (.stopped 0 p.size) := by
  rw [stop, Gate.stop?, h]
  rfl

lemma closeNow_of_shut {p : Partition} (h : p.gate = .shut) :
    p.closeNow = (.ok (), p.report .alreadyClosed) := by
  obtain ⟨settings, index, watermark, store, metrics, gate, log⟩ := p
  obtain rfl : gate = .shut := h
  rfl

/-- How closing ends when the partition has been stopped: the index has been called, and the
gate is shut exactly if the index could be closed. -/
inductive Release (p : Partition) : CloseResult → Partition → Prop
  | failed (e : IndexError) (log : List Event) (answer : p.index.close.1 = .error e) :
    Release p (.error (.index e)) { p with index := p.index.close.2, log }
  | done (metrics : Metrics) (log : List Event) (answer : p.index.close.1 = .ok ()) :
    Release p (.ok ()) { p with index := p.index.close.2, gate := .shut, metrics, log }

lemma closeNow_release {p : Partition} (h : p.gate = .stopping) :
    Release p p.closeNow.1 p.closeNow.2 := by
  obtain ⟨settings, index, watermark, store, metrics, gate, log⟩ := p
  obtain rfl : gate = .stopping := h
  -- nobody is inside, so the closer goes on at once
  have hclose : closeNow ⟨settings, index, watermark, store, metrics, .stopping, log⟩ =
      release ⟨settings, index, watermark, store, metrics, .shut, log⟩ := rfl
  rw [hclose]
  unfold release
  dsimp only [report]
  split
  next e closed hanswer =>
    obtain rfl : index.close.2 = closed := congrArg Prod.snd hanswer
    exact .failed e _ (congrArg Prod.fst hanswer)
  next closed hanswer =>
    obtain rfl : index.close.2 = closed := congrArg Prod.snd hanswer
    exact .done _ _ (congrArg Prod.fst hanswer)

lemma Release.index {p q : Partition} {result : CloseResult} (h : Release p result q) :
    result = p.index.close.1.mapError .index ∧ q.index = p.index.close.2 := by
  cases h with
  | failed e log answer =>
    rw [answer]
    exact ⟨rfl, rfl⟩
  | done metrics log answer =>
    rw [answer]
    exact ⟨rfl, rfl⟩

/-! ## Stages -/

/-- How far some calls have brought a partition that was open: the gate that it has now, and
what the index has answered to being closed. -/
inductive Stage (calls : List Call) : Gate → List (Except IndexError Unit) → Prop
  | running (h : .stop ∉ calls) : Stage calls {} []
  | stopping (h : .stop ∈ calls) (failures : List IndexError) :
    Stage calls .stopping (failures.map .error)
  | shut (h : .stop ∈ calls) (failures : List IndexError) :
    Stage calls .shut (failures.map .error ++ [.ok ()])

lemma released_close {p : Partition} (h : p.gate = .stopping) :
    p.released .close = [p.index.close.1] := by
  have hindex := (closeNow_release h).index.2
  refine if_neg ?_
  change ¬p.closeNow.2.index.closeCalls = _
  rw [hindex, KeyIndex.closeCalls_close]
  omega

/-- One more call: a stop or a close may take the partition to the next stage, and nothing
else does. -/
lemma Stage.call {p : Partition} {calls : List Call} {answers : List (Except IndexError Unit)}
    (h : Stage calls p.gate answers) (call : Call) :
    Stage (calls ++ [call]) (p.call call).gate (answers ++ p.released call) := by
  generalize hgate : p.gate = gate at h
  have hother (hstop : call ≠ .stop) (hclose : call ≠ .close) :
      (p.call call).gate = gate ∧ answers ++ p.released call = answers ∧
        (.stop ∈ calls ++ [call] ↔ .stop ∈ calls) :=
    ⟨(p.call_gate hstop hclose).trans hgate, by simp [p.released_of_ne_close hclose],
      by simp [Ne.symm hstop]⟩
  cases h with
  | running hnone =>
    by_cases hstop : call = .stop
    · subst hstop
      rw [Partition.call, stop_of_open hgate, p.released_of_ne_close (by simp)]
      exact .stopping (by simp) []
    by_cases hclose : call = .close
    · subst hclose
      have hrefused : p.call .close = p := by
        rw [Partition.call, closeNow_of_open (by rw [hgate])]
      rw [released, hrefused, hgate, if_pos rfl]
      exact .running (by simpa using hnone)
    obtain ⟨hsame, hanswers, hmem⟩ := hother hstop hclose
    rw [hsame, hanswers]
    exact .running (by rwa [hmem])
  | stopping hsome failures =>
    by_cases hclose : call = .close
    · subst hclose
      have hmem : Call.stop ∈ calls ++ [.close] := List.mem_append_left _ hsome
      have hrelease := closeNow_release hgate
      rw [released_close hgate]
      change Stage _ p.closeNow.2.gate _
      generalize p.closeNow.1 = result at hrelease
      generalize p.closeNow.2 = q at hrelease ⊢
      cases hrelease with
      | failed e log answer =>
        have hfailures : failures.map Except.error ++ [Except.error e] =
            ((failures ++ [e]).map Except.error : List (Except IndexError Unit)) := by simp
        rw [answer, hgate, hfailures]
        exact .stopping hmem _
      | done metrics log answer =>
        rw [answer]
        exact .shut hmem failures
    · obtain ⟨log, hframe⟩ := call_of_stopped (p := p) (by rw [hgate]; rfl) hclose
      rw [p.released_of_ne_close hclose, hframe, List.append_nil, hgate]
      exact .stopping (List.mem_append_left _ hsome) failures
  | shut hsome failures =>
    obtain ⟨log, hframe⟩ := Shut.call (p := p) ⟨by rw [hgate]; rfl, by rw [hgate]; rfl⟩ call
    rw [released, hframe, if_pos rfl, List.append_nil, hgate]
    exact .shut (List.mem_append_left _ hsome) failures

theorem run_stage {p : Partition} (opened : p.gate = {}) (calls : List Call) :
    Stage calls (p.run calls).gate (p.releases calls) := by
  induction calls using List.reverseRecOn with
  | nil =>
    change Stage [] p.gate []
    rw [opened]
    exact .running List.not_mem_nil
  | append_singleton calls call ih =>
    rw [run_concat, releases_concat]
    exact ih.call call

/-- An open gate stays open until a stop, and the index as closed as it is. -/
lemma call_unstopped {p : Partition} (opened : p.gate = {}) {call : Call} (hstop : call ≠ .stop) :
    (p.call call).gate = {} ∧ (p.call call).index.isClosed = p.index.isClosed := by
  by_cases hclose : call = .close
  · subst hclose
    rw [Partition.call, closeNow_of_open (by rw [opened])]
    exact ⟨opened, rfl⟩
  · have hkept := call_keptInUse
      (KeyIndex.keptInUse_closing p.index.closeCalls p.index.isClosed) p hclose ⟨rfl, rfl⟩
    exact ⟨(p.call_gate hstop hclose).trans opened, hkept.2⟩

/-- A partition that was not stopped has an open gate, and its index is as closed as at the
start. -/
lemma run_unstopped {p : Partition} (opened : p.gate = {}) {calls : List Call}
    (h : .stop ∉ calls) :
    (p.run calls).gate = {} ∧ (p.run calls).index.isClosed = p.index.isClosed := by
  induction calls using List.reverseRecOn with
  | nil => exact ⟨opened, rfl⟩
  | append_singleton calls call ih =>
    rw [List.mem_append, List.mem_singleton, not_or] at h
    obtain ⟨hgate, hclosed⟩ := ih h.1
    obtain ⟨hopen, hsame⟩ := call_unstopped hgate (Ne.symm h.2)
    rw [run_concat]
    exact ⟨hopen, hsame.trans hclosed⟩

/-! ## After a stop -/

/-- What is there to be lost is as before: the entries, the watermark and what the store has
of it. -/
structure Intact (p q : Partition) : Prop where
  entries : q.index.get? = p.index.get?
  watermark : q.watermark = p.watermark
  store : q.store = p.store

lemma call_intact {p : Partition} (stopped : p.gate.stopped = true) (call : Call) :
    (p.call call).gate.stopped = true ∧ Intact p (p.call call) := by
  by_cases hclose : call = .close
  · subst hclose
    have hentries := p.get?_closeNow
    obtain ⟨-, gate, metrics, log, hgate, hframe⟩ := p.closeNow_frame
    rw [Partition.call, hframe]
    exact ⟨hgate.trans stopped, hentries, rfl, rfl⟩
  · obtain ⟨log, hframe⟩ := call_of_stopped stopped hclose
    rw [hframe]
    exact ⟨stopped, rfl, rfl, rfl⟩

/-- Nothing is lost or won any more once a partition has been stopped. -/
lemma run_intact {p : Partition} (stopped : p.gate.stopped = true) (calls : List Call) :
    (p.run calls).gate.stopped = true ∧ Intact p (p.run calls) := by
  refine run_induction (motive := fun q => q.gate.stopped = true ∧ Intact p q) ?_
    ⟨stopped, rfl, rfl, rfl⟩
  rintro q call - ⟨hstopped, hintact⟩
  obtain ⟨hstill, hcall⟩ := call_intact hstopped call
  exact ⟨hstill, hcall.entries.trans hintact.entries, hcall.watermark.trans hintact.watermark,
    hcall.store.trans hintact.store⟩

/-- No operation is admitted: each of them is skipped, or finds its segment unsupported. -/
structure TurnsAway (p : Partition) : Prop where
  change : ∀ change, Idle (p.change change).1
  ingest : ∀ segment record, ∃ reason, (p.ingest segment record).1 = .ok (.skipped reason)
  sweep : ∃ reason, p.sweep.1 = .ok (.skipped reason)

lemma turnsAway_of_stopped {p : Partition} (stopped : p.gate.stopped = true) : p.TurnsAway where
  change change := by
    obtain ⟨result, log, hidle, heq⟩ := change_of_stopped stopped change
    rw [heq]
    exact hidle
  ingest segment record := by
    obtain ⟨log, heq⟩ := ingest_of_stopped stopped segment record
    exact ⟨.stopped, congrArg Prod.fst heq⟩
  sweep := by
    obtain ⟨reason, log, heq⟩ := sweep_of_stopped stopped
    exact ⟨reason, congrArg Prod.fst heq⟩

/-! ## The discipline -/

namespace Stage

variable {calls : List Call} {gate : Gate} {answers : List (Except IndexError Unit)}

lemma gate_of_unstopped (h : Stage calls gate answers) (hnone : .stop ∉ calls) : gate = {} := by
  cases h with
  | running => rfl
  | stopping hsome => exact absurd hsome hnone
  | shut hsome => exact absurd hsome hnone

lemma stopped (h : Stage calls gate answers) (hsome : .stop ∈ calls) : gate.stopped = true := by
  cases h with
  | running hnone => exact absurd hsome hnone
  | stopping => rfl
  | shut => rfl

lemma enterCloser (h : Stage calls gate answers) (hsome : .stop ∈ calls) :
    ∃ status, gate.enterCloser.1 = .finished status := by
  cases h with
  | running hnone => exact absurd hsome hnone
  | stopping => exact ⟨.drained, rfl⟩
  | shut => exact ⟨.alreadyClosed, rfl⟩

lemma gate_of_released (h : Stage calls gate answers) (hok : .ok () ∈ answers) :
    gate = .shut := by
  cases h with
  | running => cases hok
  | stopping _ failures => simp at hok
  | shut => rfl

lemma answers_eq (h : Stage calls gate answers) :
    ∃ failures : List IndexError, answers = failures.map .error ∨
      answers = failures.map .error ++ [.ok ()] := by
  cases h with
  | running => exact ⟨[], .inl rfl⟩
  | stopping _ failures => exact ⟨failures, .inl rfl⟩
  | shut _ failures => exact ⟨failures, .inr rfl⟩

/-- Only a partition that has been stopped and not closed asks the index, so that only there
the failure of the index is an answer. -/
lemma gate_of_failed {p : Partition} (h : Stage calls p.gate answers) {e : IndexError}
    (hfailed : p.closeNow.1 = .error (.index e)) : p.gate = .stopping := by
  generalize hgate : p.gate = gate at h
  cases h with
  | running =>
    rw [closeNow_of_open (by rw [hgate])] at hfailed
    cases hfailed
  | stopping => rfl
  | shut =>
    rw [closeNow_of_shut hgate] at hfailed
    cases hfailed

end Stage

/-- A close that has failed with the index leaves everything but the index as it was, and the
next close asks the index again, whatever else is called in between. -/
lemma closeNow_retry {p : Partition} (hgate : p.gate = .stopping) {e : IndexError}
    (hfailed : p.closeNow.1 = .error (.index e)) :
    p.closeNow.2.gate = .stopping ∧ p.closeNow.2.metrics = p.metrics ∧
      ∀ between, .close ∉ between →
        (p.closeNow.2.run between).closeNow.1 = p.closeNow.2.index.close.1.mapError .index ∧
        (p.closeNow.2.run between).closeNow.2.index = p.closeNow.2.index.close.2 := by
  have hrelease := closeNow_release hgate
  rw [hfailed] at hrelease
  generalize p.closeNow.2 = q at hrelease ⊢
  have hq : q.gate = .stopping ∧ q.metrics = p.metrics := by
    cases hrelease with
    | failed => exact ⟨hgate, rfl⟩
  refine ⟨hq.1, hq.2, fun between hnone => ?_⟩
  have hsame : (q.run between).gate = .stopping ∧ (q.run between).index = q.index := by
    refine run_induction (motive := fun r => r.gate = .stopping ∧ r.index = q.index) ?_
      ⟨hq.1, rfl⟩
    rintro r call hmem ⟨hstopping, hindex⟩
    have hstopped : r.gate.stopped = true := by rw [hstopping]; rfl
    have hclose : call ≠ .close := by rintro rfl; exact hnone hmem
    obtain ⟨log, hframe⟩ := call_of_stopped hstopped hclose
    rw [hframe]
    exact ⟨hstopping, hindex⟩
  have hagain := (closeNow_release hsame.1).index
  rw [hsame.2] at hagain
  exact hagain

/-- **Shutting down.**  After any calls on a partition whose gate was open at the start, with an
index whose closing fails as often as it likes:
* every operation leaves the gate as it has found it;
* without a stop so far, a close is refused and changes nothing, a stop finds nobody inside, and
  a close after it need not wait;
* after a stop no close has to wait, every operation is turned away, and whatever is called,
  the entries, the watermark and what the store has of it stay;
* a close that fails with the index leaves the partition stopping and its gauges as they were,
  and the next close asks the index again;
* the index is closed at most once, after failures only, and from then on a close succeeds
  without asking it. -/
theorem shutdown_is_orderly {p q : Partition} (opened : p.gate = {}) {calls : List Call}
    (run : p.run calls = q) :
    (∀ call, call ≠ .stop → call ≠ .close → (q.call call).gate = q.gate) ∧
    (.stop ∉ calls →
      q.closeNow = (.error (.gate .notStopped), q) ∧
      q.stop.log = q.log ++ [.stopped 0 q.size] ∧
      q.stop.gate.enterCloser.1 = .finished .drained) ∧
    (.stop ∈ calls →
      (∃ status, q.gate.enterCloser.1 = .finished status) ∧ q.TurnsAway ∧
      ∀ later, Intact q (q.run later)) ∧
    (∀ e, q.closeNow.1 = .error (.index e) →
      q.closeNow.2.gate.phase = .stopping ∧ q.closeNow.2.metrics = q.metrics ∧
      ∀ between, .close ∉ between →
        (q.closeNow.2.run between).closeNow.1 = q.closeNow.2.index.close.1.mapError .index ∧
        (q.closeNow.2.run between).closeNow.2.index = q.closeNow.2.index.close.2) ∧
    (∃ failures : List IndexError, p.releases calls = failures.map .error ∨
      p.releases calls = failures.map .error ++ [.ok ()]) ∧
    q.index.closeCalls = p.index.closeCalls + (p.releases calls).length ∧
    (.ok () ∈ p.releases calls → q.closeNow = (.ok (), q.report .alreadyClosed)) := by
  have hstage := run_stage opened calls
  have hcalls := p.closeCalls_run calls
  rw [run] at hstage hcalls
  refine ⟨fun call hstop hclose => q.call_gate hstop hclose, fun hnone => ?_, fun hsome => ?_,
    fun e hfailed => ?_, hstage.answers_eq, hcalls, fun hok => ?_⟩
  · have hgate := hstage.gate_of_unstopped hnone
    rw [stop_of_open hgate]
    exact ⟨closeNow_of_open (by rw [hgate]), rfl, rfl⟩
  · have hstopped := hstage.stopped hsome
    exact ⟨hstage.enterCloser hsome, turnsAway_of_stopped hstopped,
      fun later => (run_intact hstopped later).2⟩
  · obtain ⟨hgate, hmetrics, hretry⟩ := closeNow_retry (hstage.gate_of_failed hfailed) hfailed
    exact ⟨by rw [hgate]; rfl, hmetrics, hretry⟩
  · exact closeNow_of_shut (hstage.gate_of_released hok)

end Partition

/-- A partition whose index fails to close once. -/
def Sample.stubborn : Partition := Sample.partition { backend := .unordered {}, failingCloses := 1 }

/-- It is filled, stopped and closed: the first close fails and can be tried again, and after
the second one the index is left alone. -/
theorem shutdown_is_orderly_stubborn :
    (Sample.stubborn.run [.change (.add Sample.aging), .stop]).closeNow.1 =
      .error (.index (.release "close 0 failed")) ∧
    (Sample.stubborn.run [.change (.add Sample.aging), .stop]).closeNow.2.gate.phase = .stopping ∧
    .ok () ∈ Sample.stubborn.releases [.change (.add Sample.aging), .stop, .close, .close] ∧
    ∃ q, Sample.stubborn.run [.change (.add Sample.aging), .stop, .close, .close] = q ∧
      q.closeNow = (.ok (), q.report .alreadyClosed) := by
  have hfailed : (Sample.stubborn.run [.change (.add Sample.aging), .stop]).closeNow.1 =
      .error (.index (.release "close 0 failed")) := rfl
  have hreleased : .ok () ∈
      Sample.stubborn.releases [.change (.add Sample.aging), .stop, .close, .close] :=
    List.mem_cons_of_mem _ List.mem_cons_self
  obtain ⟨-, -, -, hretry, -⟩ := Partition.shutdown_is_orderly rfl
    (show Sample.stubborn.run [.change (.add Sample.aging), .stop] = _ from rfl)
  obtain ⟨-, -, -, -, -, -, hclosed⟩ := Partition.shutdown_is_orderly rfl
    (show Sample.stubborn.run [.change (.add Sample.aging), .stop, .close, .close] = _ from rfl)
  exact ⟨hfailed, (hretry _ hfailed).1, hreleased, _, rfl, hclosed hreleased⟩

end PartitionKeys
