/-
# The watermark is the largest time seen

A call that is let in may bring a time with it: the largest time of a new segment, or the time
of a single record.  The watermark takes these times into account and no others, whatever
becomes of the calls; so after any calls it is the largest number among its first value and
these times.  Which calls are let in is simple in a sequence of calls: all of them up to the
first stop.
-/
import PartitionKeys.Proofs.Partition.Lifecycle
import PartitionKeys.Proofs.Partition.Timely

namespace PartitionKeys

/-! ## The largest of some times -/

/-- A number of a list such that no number of the list is larger. -/
structure IsLargest (largest : Binary64) (times : List Binary64) : Prop where
  mem : largest ∈ times
  number : largest.isNaN = false
  le : ∀ time ∈ times, time.isNaN = false → time ≤ largest

lemma IsLargest.singleton {time : Binary64} (number : time.isNaN = false) :
    IsLargest time [time] where
  mem := List.mem_singleton_self time
  number := number
  le := by
    intro other hmem _
    obtain rfl := List.mem_singleton.1 hmem
    exact ⟨number, number, le_refl _⟩

/-- A list has one largest number, up to the sign of zero, in whatever order it comes. -/
lemma IsLargest.sameNumber {a b : Binary64} {times others : List Binary64}
    (ha : IsLargest a times) (hb : IsLargest b others) (perm : times.Perm others) :
    a.sameNumber b = true := by
  have hab : a ≤ b := hb.le a (perm.mem_iff.1 ha.mem) ha.number
  have hba : b ≤ a := ha.le b (perm.mem_iff.2 hb.mem) hb.number
  have heq : a.signed = b.signed := Int.le_antisymm hab.2.2 hba.2.2
  simp [Binary64.sameNumber, ha.number, hb.number, heq]

/-- One more time, taken into account by the watermark. -/
lemma IsLargest.observe {w : Watermark} {times : List Binary64} (h : IsLargest w.time times)
    (time : Binary64) : IsLargest (w.observe time).time (times ++ [time]) := by
  unfold Watermark.observe
  split
  · next hnews =>
    refine ⟨by simp, hnews.2.1, fun other hmem hother => ?_⟩
    rcases List.mem_append.1 hmem with hmem | hmem
    · exact Binary64.le_trans (h.le other hmem hother) (Binary64.le_of_lt hnews)
    · obtain rfl := List.mem_singleton.1 hmem
      exact ⟨hother, hother, le_refl _⟩
  · next hknown =>
    refine ⟨List.mem_append_left _ h.mem, h.number, fun other hmem hother => ?_⟩
    rcases List.mem_append.1 hmem with hmem | hmem
    · exact h.le other hmem hother
    · obtain rfl := List.mem_singleton.1 hmem
      exact (Binary64.lt_or_le h.number hother).resolve_left hknown

namespace Watermark

/-- The watermark after some times, one after the other. -/
def observeAll (w : Watermark) (times : List Binary64) : Watermark := times.foldl observe w

@[simp] lemma observeAll_nil (w : Watermark) : w.observeAll [] = w := rfl

@[simp] lemma observeAll_cons (w : Watermark) (time : Binary64) (times : List Binary64) :
    w.observeAll (time :: times) = (w.observe time).observeAll times := rfl

lemma observeAll_append (w : Watermark) (first rest : List Binary64) :
    w.observeAll (first ++ rest) = (w.observeAll first).observeAll rest := by
  simp [observeAll]

lemma isLargest_observeAll {w : Watermark} (number : w.time.isNaN = false)
    (times : List Binary64) : IsLargest (w.observeAll times).time (w.time :: times) := by
  induction times using List.reverseRecOn with
  | nil => exact .singleton number
  | append_singleton times time ih =>
    rw [observeAll_append, ← List.cons_append]
    exact ih.observe time

end Watermark

/-! ## The times that calls bring -/

/-- Whether a call stops the partition. -/
def Call.isStop : Call → Bool
  | .stop => true
  | _ => false

lemma Call.isStop_iff {call : Call} : call.isStop = true ↔ call = .stop := by
  cases call <;> simp [isStop]

namespace Settings

/-- The time that a call brings if it is let in: the largest time of a sealed segment that is
to come in, if it can be read, or the time of a single record, if it has one. -/
def timeOf (s : Settings) : Call → Option Binary64
  | .change change =>
    if change.bringsRecords ∧ change.target.kind = .immutable then
      s.timeColumn.bind fun column => (change.target.maxTime column).toOption
    else none
  | .ingest _ record => s.timeColumn.bind record.version.time?
  | .sweep | .stop | .close => none

lemma timeOf_change (s : Settings) {change : SegmentChange} (hbrings : change.bringsRecords = true)
    (hsealed : change.target.kind = .immutable) : s.timeOf (.change change) =
      s.timeColumn.bind fun column => (change.target.maxTime column).toOption :=
  if_pos ⟨hbrings, hsealed⟩

lemma timeOf_change_eq_none (s : Settings) {change : SegmentChange}
    (h : ¬(change.bringsRecords = true ∧ change.target.kind = .immutable)) :
    s.timeOf (.change change) = none :=
  if_neg h

/-- The times that calls bring one after the other: those up to the first stop are let in. -/
def timesOf (s : Settings) (calls : List Call) : List Binary64 :=
  (calls.takeWhile fun call => !call.isStop).filterMap s.timeOf

lemma timesOf_cons_of_stop (s : Settings) (calls : List Call) :
    s.timesOf (.stop :: calls) = [] := rfl

lemma timesOf_cons (s : Settings) {call : Call} (hstop : call.isStop = false)
    (calls : List Call) :
    s.timesOf (call :: calls) = (s.timeOf call).toList ++ s.timesOf calls := by
  simp only [timesOf, List.takeWhile_cons, hstop, Bool.not_false, if_true, List.filterMap_cons]
  cases s.timeOf call <;> rfl

end Settings

namespace Partition

variable {p : Partition}

lemma toOption_maxTime (p : Partition) (segment : Segment) : (p.maxTime segment).toOption =
    p.settings.timeColumn.bind fun column => (segment.maxTime column).toOption := by
  unfold maxTime
  cases p.settings.timeColumn with
  | none => rfl
  | some column =>
    rw [Option.bind_some]
    dsimp only
    cases segment.maxTime column with
    | error e => rfl
    | ok time => rfl

/-- The watermark once some more times have been seen; without retention none is looked at. -/
def watermarkAfter (p : Partition) (times : List Binary64) : Watermark :=
  if p.settings.ttlEnabled then p.watermark.observeAll times else p.watermark

lemma watermarkAfter_of_ttlEnabled (ttlEnabled : p.settings.ttlEnabled = true)
    (times : List Binary64) : p.watermarkAfter times = p.watermark.observeAll times :=
  if_pos ttlEnabled

lemma watermarkAfter_of_ttlDisabled (lasting : p.settings.ttlEnabled = false)
    (times : List Binary64) : p.watermarkAfter times = p.watermark :=
  if_neg (Bool.eq_false_iff.1 lasting)

@[simp] lemma watermarkAfter_nil (p : Partition) : p.watermarkAfter [] = p.watermark := by
  simp [watermarkAfter]

/-- Times seen in two goes. -/
lemma watermarkAfter_append {q : Partition} (settings : q.settings = p.settings)
    {first : List Binary64} (watermark : q.watermark = p.watermarkAfter first)
    (rest : List Binary64) : q.watermarkAfter rest = p.watermarkAfter (first ++ rest) := by
  cases hlasting : p.settings.ttlEnabled with
  | false =>
    rw [watermarkAfter_of_ttlDisabled (by rw [settings, hlasting]), watermark,
      watermarkAfter_of_ttlDisabled hlasting, watermarkAfter_of_ttlDisabled hlasting]
  | true =>
    rw [watermarkAfter_of_ttlEnabled (by rw [settings, hlasting]), watermark,
      watermarkAfter_of_ttlEnabled hlasting, watermarkAfter_of_ttlEnabled hlasting,
      Watermark.observeAll_append]

/-- Looking at the largest time of a segment takes it into account if its records are to come
in, whatever is found. -/
lemma CheckedTo.watermark_eq {q : Partition} {change : SegmentChange}
    {answer : Option SegmentResult} (h : CheckedTo p change answer q)
    (hsealed : change.bringsRecords = true → change.target.kind = .immutable) :
    q.watermark = p.watermarkAfter (p.settings.timeOf (.change change)).toList := by
  have hseeing (ttlEnabled : p.settings.ttlEnabled = true) {time : Binary64}
      (hmax : p.maxTime change.target = .ok time) :
      p.seeing change time = p.watermarkAfter (p.settings.timeOf (.change change)).toList := by
    have htime := p.toOption_maxTime change.target
    rw [hmax] at htime
    by_cases hbrings : change.bringsRecords = true
    · rw [Settings.timeOf_change _ hbrings (hsealed hbrings), ← htime, seeing, if_pos hbrings,
        watermarkAfter_of_ttlEnabled ttlEnabled]
      rfl
    · rw [Settings.timeOf_change_eq_none _ fun h => hbrings h.1, seeing, if_neg hbrings]
      exact p.watermarkAfter_nil.symm
  cases h with
  | lasting ttlDisabled => rw [watermarkAfter_of_ttlDisabled ttlDisabled]
  | unread e ttlEnabled hmax =>
    have hnone : p.settings.timeOf (.change change) = none := by
      have htime := p.toOption_maxTime change.target
      rw [hmax] at htime
      by_cases hnew : change.bringsRecords = true ∧ change.target.kind = .immutable
      · rw [Settings.timeOf_change _ hnew.1 hnew.2, ← htime]
        rfl
      · exact Settings.timeOf_change_eq_none _ hnew
    rw [hnone]
    exact p.watermarkAfter_nil.symm
  | expired time watermark log ttlEnabled hmax hseen => exact hseen.trans (hseeing ttlEnabled hmax)
  | live time watermark ttlEnabled hmax hseen => exact hseen.trans (hseeing ttlEnabled hmax)

lemma checkRecordTime_watermark (p : Partition) (record : Record) :
    (p.checkRecordTime record).2.watermark =
      p.watermarkAfter (p.settings.timeColumn.bind record.version.time?).toList := by
  unfold checkRecordTime watermarkAfter
  split
  · cases p.settings.timeColumn.bind record.version.time? with
    | none => rfl
    | some time =>
      dsimp only
      split <;> rfl
  · rfl

/-- Once it is inside the gate, an operation on segments takes the largest time of its new
segment into account, whatever becomes of it then. -/
lemma start_watermark {gate : Gate} (hgate : p.gate.enter? = some gate) (change : SegmentChange) :
    (p.start change).2.watermark =
      p.watermarkAfter (p.settings.timeOf (.change change)).toList := by
  rcases hstart : p.start change with ⟨answer, q⟩
  cases startedTo_of_eq hstart with
  | empty log hempty =>
    rw [Settings.timeOf_change_eq_none _ (by simp [hempty])]
    exact p.watermarkAfter_nil.symm
  | unsupported brings hkind =>
    rw [Settings.timeOf_change_eq_none _ fun h => hkind h.2]
    exact p.watermarkAfter_nil.symm
  | stopped log outside => cases hgate.symm.trans outside
  | ended gate result q hsealed inside check => exact (checkedTo_of_eq check).watermark_eq hsealed
  | begun gate q hsealed inside check => exact (checkedTo_of_eq check).watermark_eq hsealed

lemma change_watermark {gate : Gate} (hgate : p.gate.enter? = some gate) (change : SegmentChange) :
    (p.change change).2.watermark =
      p.watermarkAfter (p.settings.timeOf (.change change)).toList := by
  rw [← start_watermark hgate]
  rcases hstart : p.start change with ⟨_ | result, q⟩
  · obtain ⟨_, _, _, hframe⟩ := q.perform_frame change
    rw [change_of_start_none hstart, hframe]
    rfl
  · rw [change_of_start_some hstart]

lemma ingest_watermark {gate : Gate} (hgate : p.gate.enter? = some gate) (segment : SegmentId)
    (record : Record) :
    (p.ingest segment record).2.watermark =
      p.watermarkAfter (p.settings.timeOf (.ingest segment record)).toList := by
  have hcheck := p.checkRecordTime_watermark record
  rw [ingest_of_enter hgate]
  generalize p.checkRecordTime record = checked at hcheck ⊢
  obtain ⟨_ | reason, q⟩ := checked
  · obtain ⟨_, _, _, hframe⟩ := q.offerRecord_frame segment record
    dsimp only
    rw [hframe]
    exact hcheck
  · exact hcheck

/-! ## The watermark of a run -/

/-- What a call other than a stop does to the watermark of a partition that is open. -/
lemma call_watermark (opened : p.gate = {}) {call : Call} (hstop : call.isStop = false) :
    (p.call call).watermark = p.watermarkAfter (p.settings.timeOf call).toList := by
  cases call with
  | change change => exact change_watermark (enter?_of_open opened) change
  | ingest segment record => exact ingest_watermark (enter?_of_open opened) segment record
  | sweep => simp [Partition.call, Settings.timeOf, sweep_watermark]
  | stop => cases hstop
  | close => simp [Partition.call, Settings.timeOf, closeNow_watermark]

/-- The watermark after some calls: all times that they bring have been taken into account. -/
lemma run_watermark (opened : p.gate = {}) (calls : List Call) :
    (p.run calls).watermark = p.watermarkAfter (p.settings.timesOf calls) := by
  induction calls generalizing p with
  | nil => simp [run, Settings.timesOf]
  | cons call rest ih =>
    have hrun : p.run (call :: rest) = (p.call call).run rest := rfl
    cases hstop : call.isStop with
    | true =>
      obtain rfl := Call.isStop_iff.1 hstop
      have hstopped : (p.call .stop).gate.stopped = true := by
        rw [Partition.call, stop_of_open opened]
        rfl
      rw [hrun, (run_intact hstopped rest).2.watermark, Settings.timesOf_cons_of_stop,
        Partition.call, stop_of_open opened]
      simp [report]
    | false =>
      have hgate : (p.call call).gate = {} := by
        refine (call_unstopped opened fun heq => ?_).1
        rw [Call.isStop_iff.2 heq] at hstop
        cases hstop
      rw [hrun, ih hgate, call_settings, Settings.timesOf_cons _ hstop]
      exact watermarkAfter_append (p.call_settings call) (call_watermark opened hstop) _

/-- The watermark of a partition whose keys expire is the largest time that it has seen. -/
lemma run_largest (opened : p.gate = {}) (ttlEnabled : p.settings.ttlEnabled = true)
    (number : p.watermark.time.isNaN = false) (calls : List Call) :
    IsLargest (p.run calls).watermark.time (p.watermark.time :: p.settings.timesOf calls) := by
  rw [run_watermark opened, watermarkAfter_of_ttlEnabled ttlEnabled]
  exact Watermark.isLargest_observeAll number _

/-- An operation is let in after some calls exactly if none of them was a stop. -/
lemma enter?_run (opened : p.gate = {}) (calls : List Call) :
    (p.run calls).gate.enter?.isSome = true ↔ .stop ∉ calls := by
  have hstage := run_stage opened calls
  constructor
  · intro henter hsome
    rw [Gate.enter?_of_stopped (hstage.stopped hsome)] at henter
    cases henter
  · intro hnone
    rw [hstage.gate_of_unstopped hnone]
    rfl

lemma run_le (number : p.watermark.time.isNaN = false) (calls : List Call) :
    p.watermark.time ≤ (p.run calls).watermark.time := by
  refine run_induction (motive := fun q => p.watermark.time ≤ q.watermark.time) ?_
    ⟨number, number, le_refl _⟩
  intro q call _ hle
  exact Binary64.le_trans hle ((q.call_observed call).le hle.2.1)

/-! ## A partition that has just been set up -/

/-- What a partition is like when it has been set up. -/
structure Built (settings : Settings) (choice : StoreChoice) (p : Partition) : Prop where
  settings : settings.checked = .ok p.settings
  gate : p.gate = {}
  watermark : p.watermark = (firstWatermark p.settings (choice.store p.settings)).1
  store : p.store = (firstWatermark p.settings (choice.store p.settings)).2.1

lemma built_of_build {settings : Settings} {index : KeyIndex} {choice : StoreChoice}
    {metrics : Metrics} (h : build settings index choice metrics = .ok p) :
    Built settings choice p := by
  unfold build at h
  cases hchecked : settings.checked with
  | error e =>
    rw [hchecked] at h
    cases h
  | ok s =>
    rw [hchecked] at h
    cases h
    exact ⟨hchecked, rfl, rfl, rfl⟩

/-- Without retention there is no watermark. -/
lemma Built.watermark_unset {settings : Settings} {choice : StoreChoice}
    (h : Built settings choice p) (lasting : p.settings.ttlEnabled = false) :
    p.watermark = .unset := by
  rw [h.watermark, firstWatermark, if_neg (by simp [lasting])]
  split <;> rfl

/-- **The watermark is the largest time seen.**  A partition is set up, whatever its store has,
with a number as its watermark, and some calls are made.  An operation is let in as long as no
call has been a stop.  If keys expire, the watermark is the largest number among its first value
and the times that the calls let in have brought, and another order of these times leads to the
same number; if they do not, it stays unset.  It never falls. -/
theorem watermark_is_largest_time {settings : Settings} {index : KeyIndex} {choice : StoreChoice}
    {metrics : Metrics} (built : build settings index choice metrics = .ok p)
    (number : p.watermark.time.isNaN = false) (calls : List Call) :
    ((p.run calls).gate.enter?.isSome = true ↔ .stop ∉ calls) ∧
    (p.settings.ttlEnabled = true →
      IsLargest (p.run calls).watermark.time (p.watermark.time :: p.settings.timesOf calls) ∧
      ∀ others, (p.settings.timesOf calls).Perm (p.settings.timesOf others) →
        (p.run calls).watermark.time.sameNumber (p.run others).watermark.time = true) ∧
    (p.settings.ttlEnabled = false → (p.run calls).watermark = .unset) ∧
    ∀ later, (p.run calls).watermark.time ≤ (p.run (calls ++ later)).watermark.time := by
  have hbuilt := built_of_build built
  refine ⟨enter?_run hbuilt.gate calls, fun ttlEnabled => ?_, fun lasting => ?_, fun later => ?_⟩
  · have hlargest := run_largest hbuilt.gate ttlEnabled number
    refine ⟨hlargest calls, fun others perm => ?_⟩
    exact (hlargest calls).sameNumber (hlargest others) (perm.cons _)
  · rw [run_watermark hbuilt.gate, watermarkAfter_of_ttlDisabled lasting,
      hbuilt.watermark_unset lasting]
  · have hrun : p.run (calls ++ later) = (p.run calls).run later := by simp [run]
    rw [hrun]
    exact run_le (run_le number calls).2.1 later

end Partition

/-- Calls that bring the times 50, 70 and 39, the last of which is expired by then, and, after a
stop, 100. -/
def Sample.dated : List Call :=
  [.change (.add Sample.aging), .ingest ⟨3, "s3"⟩ (Sample.record 4 0 (.int 70)),
    .change (.add (Sample.segment 2 [Sample.record 3 0 (.int 39)])), .change (.remove Sample.aging),
    .sweep, .stop, .ingest ⟨3, "s3"⟩ (Sample.record 5 1 (.int 100))]

/-- They leave the watermark at 70. -/
theorem watermark_is_largest_time_dated :
    ∃ p, Partition.build Sample.expiring { backend := .unordered {} }
        (.given { medium := .memory {} }) .off = .ok p ∧
      p.watermark.time.isNaN = false ∧
      IsLargest (p.run Sample.dated).watermark.time [.zero, .ofInt 50, .ofInt 70, .ofInt 39] ∧
      (p.run Sample.dated).watermark = ⟨.ofInt 70⟩ := by
  have built : Partition.build Sample.expiring { backend := .unordered {} }
      (.given { medium := .memory {} }) .off = .ok _ := rfl
  have number : Watermark.unset.time.isNaN = false := rfl
  obtain ⟨-, hlargest, -, -⟩ :=
    Partition.watermark_is_largest_time built number Sample.dated
  refine ⟨_, built, number, ?_, by decide +kernel⟩
  have htimes : Sample.expiring.timesOf Sample.dated = [.ofInt 50, .ofInt 70, .ofInt 39] := by
    decide +kernel
  rw [← htimes]
  exact (hlargest (by decide +kernel)).1

end PartitionKeys
