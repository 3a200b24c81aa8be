/-
# What the gauge of a partition tells

The gauge of the number of keys is written by hand at the end of each operation.  A call deals
with it in one of two ways, `Gauged`: it changes neither the gauge nor the number of keys, or it
writes the number of keys that it leaves.  There is one exception: a sweep that cannot persist
the watermark has dropped its keys and ends before it writes the gauge.  So the gauge tells
the number of keys throughout a run if and only if it does so at the start and no such sweep
drops a key.  Closing sets the gauge to zero, and then nothing changes any more.
-/
import PartitionKeys.Proofs.Partition.Failure
import PartitionKeys.Proofs.Partition.Run
import Mathlib.Data.List.Infix

namespace PartitionKeys

namespace Metrics

/-- Whether what is written is kept. -/
def isOn : Metrics → Bool
  | .off => false
  | .recorded _ => true

@[simp] lemma isOn_setGauge (m : Metrics) (table : String) (partition : UInt32)
    (gauge : String) (value : Nat) :
    (m.setGauge table partition gauge value).isOn = m.isOn := by
  cases m <;> rfl

@[simp] lemma isOn_recordSample (m : Metrics) (table timer : String) :
    (m.recordSample table timer).isOn = m.isOn := by
  cases m <;> rfl

lemma gauge?_setGauge_self (m : Metrics) (table : String) (partition : UInt32)
    (gauge : String) (value : Nat) :
    (m.setGauge table partition gauge value).gauge? table partition gauge =
      if m.isOn then some value else none := by
  cases m with
  | off => rfl
  | recorded r => exact r.gauge?_setGauge_self table partition gauge value

end Metrics

namespace KeyIndex

/-- An offer that is refused leaves the entries as they are held. -/
lemma backend_of_apply_error {i : KeyIndex} {key : IndexKey} {proposed : Entry} {t : Terms}
    {e : IndexError} (h : (i.apply key proposed t).1 = .error e) :
    (i.apply key proposed t).2.backend = i.backend := by
  unfold apply at h ⊢
  dsimp only at h ⊢
  split
  · rfl
  next hcall =>
  rw [if_neg hcall] at h
  obtain ⟨backend, _, _, _, _⟩ := i
  cases backend with
  | sorted i =>
    suffices hsame : (i.apply key proposed t).2 = i from congrArg Backend.sorted hsame
    change (i.apply key proposed t).1 = .error e at h
    unfold SortedIndex.apply at h ⊢
    split
    · rfl
    split
    · rfl
    split <;> simp_all
  | unordered i =>
    suffices hsame : (i.apply key proposed t).2 = i from congrArg Backend.unordered hsame
    change (i.apply key proposed t).1 = .error e at h
    unfold UnorderedIndex.apply at h ⊢
    split
    · rfl
    split
    · simp_all
    split <;> simp_all

end KeyIndex

namespace Partition

/-- What the gauge of the number of keys shows, if it was ever set. -/
def keyGauge? (p : Partition) : Option Nat :=
  p.metrics.gauge? p.settings.table p.settings.partition p.settings.kind.keyGauge

/-- If the gauge was ever set, it shows the number of keys. -/
def TellsSize (p : Partition) : Prop := ∀ n, p.keyGauge? = some n → n = p.size

lemma keyGauge?_setGauge (p : Partition) (value : Nat) :
    (p.setGauge value).keyGauge? = if p.metrics.isOn then some value else none :=
  p.metrics.gauge?_setGauge_self _ _ _ value

/-! ## What a call does to the gauge -/

/-- A partition after a call that deals with the gauge properly. -/
inductive Gauged (p q : Partition) : Prop
  | untouched (settings : q.settings = p.settings) (metrics : q.metrics = p.metrics)
    (size : q.size = p.size)
  | refreshed (metrics : q.metrics.isOn = p.metrics.isOn)
    (shows : q.keyGauge? = if p.metrics.isOn then some q.size else none)

lemma Gauged.isOn {p q : Partition} (h : Gauged p q) : q.metrics.isOn = p.metrics.isOn := by
  cases h with
  | untouched _ metrics _ => rw [metrics]
  | refreshed metrics _ => exact metrics

lemma Gauged.tellsSize {p q : Partition} (h : Gauged p q) (before : p.TellsSize) :
    q.TellsSize := by
  intro n hn
  cases h with
  | untouched settings metrics size =>
    rw [keyGauge?, settings, metrics] at hn
    rw [size]
    exact before n hn
  | refreshed _ shows =>
    rw [shows] at hn
    split at hn <;> simp_all

/-- The gauge is written from the number of keys, whatever has become of them. -/
lemma gauged_refreshGauge {p q : Partition} (metrics : q.metrics.isOn = p.metrics.isOn) :
    Gauged p q.refreshGauge := by
  refine .refreshed ?_ ?_
  · simpa [refreshGauge, setGauge] using metrics
  · rw [refreshGauge, keyGauge?_setGauge, metrics]
    rfl

lemma perform_gauged (p : Partition) (change : SegmentChange) :
    Gauged p (p.perform change).2 := by
  unfold perform
  cases p.readAll change.target with
  | error e => exact .untouched rfl rfl rfl
  | ok records =>
    cases change with
    | remove segment => exact gauged_refreshGauge rfl
    | add segment | replace old segment =>
      dsimp only
      split
      · exact .untouched rfl rfl rfl
      unfold offerRecords
      dsimp only
      split
      · exact gauged_refreshGauge rfl
      · unfold finishPass
        split <;> exact gauged_refreshGauge rfl

lemma change_gauged (p : Partition) (change : SegmentChange) :
    Gauged p (p.change change).2 := by
  rcases hstart : p.start change with ⟨_ | result, q⟩
  · obtain ⟨watermark, gate, -, rfl⟩ := start_none hstart
    rw [change_of_start_none hstart]
    -- neither the watermark nor the gate has a part in this
    cases perform_gauged { p with watermark, gate } change with
    | untouched settings metrics size => exact .untouched settings metrics size
    | refreshed metrics shows => exact .refreshed metrics shows
  · obtain ⟨⟨watermark, log, rfl⟩, -⟩ := start_some hstart
    rw [change_of_start_some hstart]
    exact .untouched rfl rfl rfl

lemma offerRecord_gauged (p : Partition) (segment : SegmentId) (record : Record) :
    Gauged p (p.offerRecord segment record).2 := by
  unfold offerRecord
  dsimp only
  generalize hentry : Entry.of ⟨segment, record.doc⟩ record.version p.settings.timeColumn = entry
  have hrefused (e : IndexError)
      (h : (p.index.apply (p.keyOf record.key) entry (p.terms .perColumn none)).1 = .error e) :=
    KeyIndex.backend_of_apply_error h
  generalize p.index.apply (p.keyOf record.key) entry (p.terms .perColumn none) = call
    at hrefused ⊢
  obtain ⟨e | update, index⟩ := call
  · exact .untouched rfl rfl (congrArg Backend.size (hrefused e rfl))
  · dsimp only
    split <;> exact gauged_refreshGauge rfl

lemma ingest_gauged (p : Partition) (segment : SegmentId) (record : Record) :
    Gauged p (p.ingest segment record).2 := by
  have hdone := p.ingest_ingestedTo segment record
  generalize (p.ingest segment record).1 = result at hdone
  generalize (p.ingest segment record).2 = q at hdone ⊢
  cases hdone with
  | stopped => exact .untouched rfl rfl rfl
  | expired => exact .untouched rfl rfl rfl
  | offered gate watermark =>
    cases offerRecord_gauged { p with watermark } segment record with
    | untouched settings metrics size => exact .untouched settings metrics size
    | refreshed metrics shows => exact .refreshed metrics shows

/-- The one exception: a sweep that cannot persist the watermark ends before it writes the
gauge, while the keys are gone. -/
lemma sweep_gauged (p : Partition) :
    (∃ outcome, p.sweep.1 = .ok outcome ∧ Gauged p p.sweep.2) ∨
      ∃ e, p.sweep.1 = .error e ∧ p.sweep.2.settings = p.settings ∧
        p.sweep.2.metrics = p.metrics := by
  have hdone := p.sweep_sweptTo
  generalize p.sweep.1 = result at hdone ⊢
  generalize p.sweep.2 = q at hdone ⊢
  cases hdone with
  | lasting => exact .inl ⟨_, rfl, .untouched rfl rfl rfl⟩
  | stopped => exact .inl ⟨_, rfl, .untouched rfl rfl rfl⟩
  | failed e => exact .inr ⟨.store e, rfl, rfl, rfl⟩
  | swept => exact .inl ⟨_, rfl, gauged_refreshGauge (by simp)⟩

/-! ## Closing -/

/-- A partition that has been closed: it is stopped for good. -/
structure Shut (p : Partition) : Prop where
  stopped : p.gate.stopped = true
  closed : p.gate.closed = true

/-- How closing a partition ends that is not closed: it can be tried again, with the gauge
dealt with, or the partition is shut and the gauge is zero. -/
inductive Closing (p : Partition) : CloseResult → Partition → Prop
  | refused (e : Failure) (q : Partition) (gauged : Gauged p q)
    (opened : q.gate.closed = false) : Closing p (.error e) q
  | released (q : Partition) (shut : q.Shut)
    (shows : q.keyGauge? = if p.metrics.isOn then some 0 else none) : Closing p (.ok ()) q

lemma release_closing (p : Partition) {gate : Gate} (stopped : gate.stopped = true)
    (closed : gate.closed = true) (drained : gate.pending = 0) :
    Closing p (release { p with gate }).1 (release { p with gate }).2 := by
  unfold release KeyIndex.close
  dsimp only [report]
  split
  next e index heq =>
    split at heq
    · cases heq
      refine .refused _ _ (.untouched rfl rfl rfl) ?_
      simp [Gate.reopen, drained]
    · cases heq
  next index heq =>
    exact .released _ ⟨stopped, closed⟩ (keyGauge?_setGauge { p with index } 0)

lemma closeNow_closing {p : Partition} (opened : p.gate.closed = false) :
    Closing p p.closeNow.1 p.closeNow.2 := by
  unfold closeNow beginClose Gate.enterCloser
  by_cases hstopped : p.gate.stopped = true
  · by_cases hdrained : p.gate.pending = 0
    · simp only [hstopped, opened, hdrained, closeWith, Bool.not_true, Bool.false_eq_true, if_true,
        if_false]
      exact p.release_closing rfl rfl rfl
    · -- the operations inside are never done, as nobody else runs
      simp only [hstopped, opened, hdrained, abandonClose, report, Gate.giveUp, closeWith,
        Bool.not_true, Bool.false_eq_true, if_false]
      exact .refused _ _ (.untouched rfl rfl rfl) rfl
  · simp only [hstopped, closeWith, Bool.not_false, if_true]
    exact .refused _ _ (.untouched rfl rfl rfl) opened

/-- Nothing happens any more to a partition that is shut. -/
lemma Shut.call {p : Partition} (h : p.Shut) (call : Call) :
    ∃ log, p.call call = { p with log } := by
  by_cases hclose : call = .close
  · subst hclose
    rw [Partition.call, closeNow, beginClose, Gate.enterCloser]
    simp only [h.stopped, h.closed, Bool.not_true, Bool.false_eq_true, if_true, if_false]
    exact ⟨_, rfl⟩
  · exact call_of_stopped h.stopped hclose

/-! ## Runs -/

/-- Some call of a run closes the partition. -/
def CloseSucceeds (p : Partition) (calls : List Call) : Prop :=
  ∃ before after, calls = before ++ .close :: after ∧ (p.run before).closeNow.1 = .ok ()

/-- No sweep of a run that cannot persist the watermark drops a key, once the gauge has been
set. -/
def FailedSweepsDropNothing (p : Partition) (calls : List Call) : Prop :=
  ∀ before after e, calls = before ++ .sweep :: after → (p.run before).sweep.1 = .error e →
    (p.run before).keyGauge?.isSome → (p.run before).sweep.2.size = (p.run before).size

lemma CloseSucceeds.mem {p : Partition} {calls : List Call} (h : p.CloseSucceeds calls) :
    .close ∈ calls := by
  obtain ⟨before, after, rfl, -⟩ := h
  simp

lemma closeSucceeds_concat {p : Partition} {calls : List Call} {call : Call} :
    p.CloseSucceeds (calls ++ [call]) ↔
      p.CloseSucceeds calls ∨ call = .close ∧ (p.run calls).closeNow.1 = .ok () := by
  constructor
  · rintro ⟨before, after, heq, hok⟩
    rcases List.eq_nil_or_concat after with rfl | ⟨after, last, rfl⟩
    · obtain ⟨rfl, hlast⟩ := List.append_inj' heq rfl
      exact .inr ⟨(List.cons.inj hlast).1, hok⟩
    · rw [List.concat_eq_append, ← List.cons_append, ← List.append_assoc] at heq
      exact .inl ⟨before, after, (List.append_inj' heq rfl).1, hok⟩
  · rintro (⟨before, after, rfl, hok⟩ | ⟨rfl, hok⟩)
    · exact ⟨before, after ++ [call], by simp, hok⟩
    · exact ⟨calls, [], rfl, hok⟩

/-- A call that does not close the partition leaves it open and deals with the gauge, unless
it is a sweep that fails. -/
lemma call_open {p : Partition} (opened : p.gate.closed = false) {call : Call}
    (hclose : call = .close → p.closeNow.1 ≠ .ok ()) :
    (p.call call).gate.closed = false ∧
      (Gauged p (p.call call) ∨ call = .sweep ∧ ∃ e, p.sweep.1 = .error e ∧
        p.sweep.2.settings = p.settings ∧ p.sweep.2.metrics = p.metrics) := by
  cases call with
  | change change =>
    obtain ⟨_, _, _, _, hframe⟩ := p.change_frame change
    refine ⟨?_, .inl (p.change_gauged change)⟩
    rw [Partition.call, hframe]
    exact opened
  | ingest segment record =>
    obtain ⟨_, _, _, _, hframe⟩ := p.ingest_frame segment record
    refine ⟨?_, .inl (p.ingest_gauged segment record)⟩
    rw [Partition.call, hframe]
    exact opened
  | sweep =>
    refine ⟨by rw [Partition.call, sweep_gate]; exact opened, ?_⟩
    rcases p.sweep_gauged with ⟨_, _, gauged⟩ | failed
    · exact .inl gauged
    · exact .inr ⟨rfl, failed⟩
  | stop =>
    rw [Partition.call, stop, Gate.stop?]
    by_cases hstopped : p.gate.stopped = true
    · rw [if_pos hstopped]
      exact ⟨opened, .inl (.untouched rfl rfl rfl)⟩
    · rw [if_neg hstopped]
      exact ⟨opened, .inl (.untouched rfl rfl rfl)⟩
  | close =>
    have hclosing := closeNow_closing opened
    have hrefused := hclose rfl
    change p.closeNow.2.gate.closed = false ∧ (Gauged p p.closeNow.2 ∨ _)
    generalize p.closeNow.1 = result at hclosing hrefused
    generalize p.closeNow.2 = q at hclosing ⊢
    cases hclosing with
    | refused e q gauged opened => exact ⟨opened, .inl gauged⟩
    | released => exact absurd rfl hrefused

/-- A partition stays open until a call closes it, and it keeps what is written if it did so
at the start. -/
lemma run_open {p : Partition} (opened : p.gate.closed = false) {calls : List Call}
    (h : ¬p.CloseSucceeds calls) :
    (p.run calls).gate.closed = false ∧ (p.run calls).metrics.isOn = p.metrics.isOn := by
  induction calls using List.reverseRecOn with
  | nil => exact ⟨opened, rfl⟩
  | append_singleton calls call ih =>
    rw [closeSucceeds_concat, not_or] at h
    obtain ⟨hopen, hison⟩ := ih h.1
    obtain ⟨hstill, hgauged⟩ := call_open hopen fun hclose hok => h.2 ⟨hclose, hok⟩
    rw [run_concat]
    refine ⟨hstill, ?_⟩
    rcases hgauged with hgauged | ⟨rfl, e, -, -, hmetrics⟩
    · rw [hgauged.isOn, hison]
    · rw [Partition.call, hmetrics, hison]

/-- Once a call has closed the partition it is shut, and its gauge is zero. -/
lemma run_shut {p : Partition} (opened : p.gate.closed = false) {calls : List Call}
    (h : p.CloseSucceeds calls) :
    (p.run calls).Shut ∧ (p.run calls).keyGauge? = if p.metrics.isOn then some 0 else none := by
  induction calls using List.reverseRecOn with
  | nil => simpa using h.mem
  | append_singleton calls call ih =>
    rw [run_concat]
    by_cases hbefore : p.CloseSucceeds calls
    · obtain ⟨hshut, hshows⟩ := ih hbefore
      obtain ⟨log, hframe⟩ := hshut.call call
      rw [hframe]
      exact ⟨⟨hshut.stopped, hshut.closed⟩, hshows⟩
    · obtain ⟨hopen, hison⟩ := run_open opened hbefore
      obtain ⟨rfl, hok⟩ := (closeSucceeds_concat.mp h).resolve_left hbefore
      have hclosing := closeNow_closing hopen
      rw [hok] at hclosing
      generalize hq : (p.run calls).closeNow.2 = q at hclosing
      rw [Partition.call, hq]
      cases hclosing with
      | released q shut shows => exact ⟨shut, hison ▸ shows⟩

lemma Shut.sweep_ok {p : Partition} (h : p.Shut) (e : Failure) : p.sweep.1 ≠ .error e := by
  obtain ⟨reason, log, hskipped⟩ := sweep_of_stopped h.stopped
  rw [hskipped]
  exact fun h => nomatch h

/-- If the gauge is right at the start and the sweeps that fail drop nothing, it is right as
long as the partition is open. -/
lemma run_tellsSize {p : Partition} (opened : p.gate.closed = false) (start : p.TellsSize)
    {calls : List Call} (harmless : p.FailedSweepsDropNothing calls)
    (h : ¬p.CloseSucceeds calls) : (p.run calls).TellsSize := by
  induction calls using List.reverseRecOn with
  | nil => exact start
  | append_singleton calls call ih =>
    rw [closeSucceeds_concat, not_or] at h
    have hbefore := ih (fun before after e heq =>
      harmless before (after ++ [call]) e (by simp [heq])) h.1
    obtain ⟨-, hgauged⟩ := call_open (run_open opened h.1).1 fun hclose hok => h.2 ⟨hclose, hok⟩
    rw [run_concat]
    rcases hgauged with hgauged | ⟨rfl, e, hfails, hsettings, hmetrics⟩
    · exact hgauged.tellsSize hbefore
    · intro n hn
      rw [Partition.call, keyGauge?, hsettings, hmetrics] at hn
      have hset : (p.run calls).keyGauge?.isSome := Option.isSome_of_mem hn
      rw [Partition.call, harmless calls [] e rfl hfails hset]
      exact hbefore n hn

/-- **The gauge tells the number of keys.**  From a partition that is not closed, and for every
list of calls with whatever results: the gauge shows the number of keys after every call up to
the first close that succeeds if and only if it does so at the start and no sweep that fails to
persist the watermark drops a key while the gauge is set.  After a close that succeeds it shows
zero. -/
theorem gauge_tells_size_iff {p : Partition} (opened : p.gate.closed = false)
    (calls : List Call) :
    ((∀ before, before <+: calls → ¬p.CloseSucceeds before → (p.run before).TellsSize) ↔
        p.TellsSize ∧ p.FailedSweepsDropNothing calls) ∧
      ∀ before, before <+: calls → p.CloseSucceeds before → p.metrics.isOn = true →
        (p.run before).keyGauge? = some 0 := by
  refine ⟨⟨fun htells => ⟨?_, ?_⟩, ?_⟩, ?_⟩
  · exact htells [] List.nil_prefix fun hclosed => by simpa using hclosed.mem
  · -- the gauge is as before the sweep, and it is right on both sides
    rintro before after e rfl hfails hset
    have hopen : ¬p.CloseSucceeds before := fun hclosed =>
      (run_shut opened hclosed).1.sweep_ok e hfails
    have hstill : ¬p.CloseSucceeds (before ++ [.sweep]) := by
      simp [closeSucceeds_concat, hopen]
    have hafter := htells (before ++ [.sweep]) ⟨after, by simp⟩ hstill
    rw [run_concat] at hafter
    obtain ⟨n, hn⟩ := Option.isSome_iff_exists.mp hset
    rw [← htells before ⟨_, rfl⟩ hopen n hn]
    rcases (p.run before).sweep_gauged with ⟨outcome, hok, -⟩ | ⟨-, -, hsettings, hmetrics⟩
    · rw [hok] at hfails
      cases hfails
    · refine (hafter n ?_).symm
      rw [Partition.call, keyGauge?, hsettings, hmetrics]
      exact hn
  · rintro ⟨hstart, harmless⟩ before ⟨after, rfl⟩ hopen
    refine run_tellsSize opened hstart (fun first rest e heq => ?_) hopen
    exact harmless first (rest ++ after) e (by simp [heq])
  · intro before _ hclosed hison
    rw [(run_shut opened hclosed).2, if_pos hison]

end Partition

namespace Sample

/-- The table with keys that expire ten after the newest time. -/
def expiring : Settings := { settings with ttl := ⟨0x4024000000000000⟩ }

/-- A partition whose keys expire. -/
def fading : Partition := { partition { backend := .unordered {} } with settings := expiring }

/-- A segment with two keys, of which the first is expired once the second is seen. -/
def aging : Segment := segment 1 [record 1 0 (.int 5), record 2 1 (.int 50)]

/-- A partition whose keys expire, with its gauges kept. -/
def gauged : Partition := { fading with metrics := .recorded {} }

/-- A key comes and expires, and the partition is closed. -/
def lifetime : List Call := [.change (.add aging), .sweep, .stop, .close]

end Sample

open Sample in
/-- While a key expires the gauge is right; after the end it is zero. -/
theorem gauge_tells_size_iff_lifetime :
    gauged.gate.closed = false ∧
      (gauged.run (lifetime.take 2)).keyGauge? = some 1 ∧
      (∀ before, before <+: lifetime → ¬gauged.CloseSucceeds before →
        (gauged.run before).TellsSize) ∧
      gauged.CloseSucceeds lifetime ∧
      (gauged.run lifetime).keyGauge? = some 0 := by
  obtain ⟨hopen, hshut⟩ := Partition.gauge_tells_size_iff (p := gauged) rfl lifetime
  have hcloses : gauged.CloseSucceeds lifetime := ⟨lifetime.take 3, [], rfl, by decide +kernel⟩
  refine ⟨rfl, by decide +kernel, ?_, hcloses, hshut lifetime (List.prefix_rfl) hcloses rfl⟩
  refine hopen.2 ⟨fun n hn => (nomatch hn), fun before after e heq hfails => ?_⟩
  -- the only sweep of this run comes second, and it succeeds
  have hbefore : before = lifetime.take 1 := by
    rcases before with _ | ⟨_, _ | ⟨_, _ | ⟨_, _ | ⟨_, before⟩⟩⟩⟩ <;> simp_all [lifetime]
  have hsucceeds : (gauged.run (lifetime.take 1)).sweep.1.toOption.isSome := by decide +kernel
  rw [hbefore] at hfails
  rw [hfails] at hsucceeds
  cases hsucceeds

open Sample in
/-- A sweep that cannot persist the watermark drops a key and leaves the gauge as it was. -/
theorem gauge_can_be_wrong_after_a_failed_sweep :
    ¬ ∀ (settings : Settings) (index : KeyIndex) (choice : StoreChoice) (p : Partition)
      (calls : List Call) (n : Nat), index.keys = [] →
      Partition.build settings index choice (.recorded {}) = .ok p → ¬p.CloseSucceeds calls →
      (p.run calls).keyGauge? = some n → n = (p.run calls).size := by
  intro h
  have hsize := h expiring { backend := .unordered {} }
    (.given { medium := .memory {}, persistFails := true }) _ [.change (.add aging), .sweep] 2
    rfl rfl (fun hcloses => by simpa using hcloses.mem) (by decide +kernel)
  exact absurd hsize (by decide +kernel)

end PartitionKeys
