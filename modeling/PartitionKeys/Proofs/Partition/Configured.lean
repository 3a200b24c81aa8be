/-
# What checked settings are good for

Settings are checked when a partition is set up and never change afterwards.  The check answers
settings in normal form, and it is the last word on them: if keys expire, there is a time column
to look at, so that looking for the largest time of a segment never finds the column missing from
the settings.  Whatever is done with the partition, in whatever order, none of its failures comes
from its settings.

Callers may come between the two halves of an operation on segments, and between the steps of
one who closes the partition; so what is done is told turn by turn.
-/
import PartitionKeys.Proofs.Partition.Counterparts
import PartitionKeys.Proofs.Partition.LargestTime
import PartitionKeys.Proofs.Settings.Checked

namespace PartitionKeys

/-! ## Normal settings -/

namespace Settings.IsNormal

variable {s : Settings}

lemma zero_le_ttl (h : s.IsNormal) : Binary64.zero ≤ s.ttl :=
  (Binary64.lt_or_le h.isNaN_ttl isNaN_zero).resolve_left h.not_ttl_lt

lemma comparisonColumns_ne_nil (h : s.IsNormal) (upsert : s.kind = .upsert) :
    s.comparisonColumns ≠ [] := by
  obtain ⟨column, hmem, -⟩ := h.upsert upsert
  exact List.ne_nil_of_mem hmem

end Settings.IsNormal

/-! ## Failures -/

/-- A failure comes from the settings. -/
def Failure.BlamesSettings (e : Failure) : Prop := ∃ fault, e.root = .settings fault

/-- A result is no failure, or one that does not come from the settings. -/
def Blameless {α : Type} (result : Except Failure α) : Prop :=
  ∀ e, result = .error e → ¬e.BlamesSettings

section

variable {ε α β : Type}

lemma blameless_ok (a : α) : Blameless (.ok a) := nofun

lemma blameless_error {e : Failure} (h : ∀ fault, e.root ≠ .settings fault) :
    Blameless (.error e : Except Failure α) := by
  rintro _ ⟨⟩ ⟨fault, hroot⟩
  exact h fault hroot

lemma blameless_mapError {wrap : ε → Failure} (h : ∀ e fault, (wrap e).root ≠ .settings fault)
    (result : Except ε α) : Blameless (result.mapError wrap) := by
  cases result with
  | ok a => exact blameless_ok a
  | error e => exact blameless_error (h e)

/-- A failure that is passed on. -/
lemma Blameless.of_eq {result : Except Failure α} (h : Blameless result) {e : Failure}
    (heq : result = .error e) : Blameless (.error e : Except Failure β) :=
  blameless_error fun fault hroot => h e heq ⟨fault, hroot⟩

/-- The operation around a failure is not where it comes from. -/
lemma Blameless.mapError {result : Except Failure α} (h : Blameless result) (p : Partition)
    (change : SegmentChange) : Blameless (result.mapError (p.operationFailure change)) := by
  cases result with
  | ok a => exact blameless_ok a
  | error e => exact blameless_error fun fault hroot => h e rfl ⟨fault, hroot⟩

end

/-- What a call answers, as far as failures go. -/
def Answer.IsBlameless : Answer → Prop
  | .segment result => Blameless result
  | .record result => Blameless result
  | .sweep result => Blameless result
  | .stop => True
  | .close result => Blameless result

/-! ## Turns -/

/-- What is done with a partition in one go: a call, one half of an operation on segments, or one
step of a caller that closes the partition. -/
inductive Turn where
  | call (call : Call)
  | start (change : SegmentChange)
  | complete (change : SegmentChange)
  | beginClose
  | closeOverflowing
  | resumeClose
  | abandonClose

/-- What a closer that does not have to wait answers. -/
def CloserState.answer? : CloserState → Option Answer
  | .finished result => some (.close result)
  | .waiting => none

namespace Partition

/-- The partition after a turn, and what is answered if the operation ends with it. -/
def turn (p : Partition) : Turn → Option Answer × Partition
  | .call call => (some (p.answer call), p.call call)
  | .start change => ((p.start change).1.map .segment, (p.start change).2)
  | .complete change => (some (.segment (p.complete change).1), (p.complete change).2)
  | .beginClose => (p.beginClose.1.answer?, p.beginClose.2)
  | .closeOverflowing => (p.closeOverflowing.1.map .close, p.closeOverflowing.2)
  | .resumeClose => (p.resumeClose.1.answer?, p.resumeClose.2)
  | .abandonClose => (some (.close p.abandonClose.1), p.abandonClose.2)

/-- The partition after some turns. -/
def turns (p : Partition) (done : List Turn) : Partition :=
  done.foldl (fun p turn => (p.turn turn).2) p

/-! ## Settings stay -/

lemma settings_start (p : Partition) (change : SegmentChange) :
    (p.start change).2.settings = p.settings := by
  rcases hstart : p.start change with ⟨_ | result, q⟩
  · obtain ⟨watermark, gate, -, rfl⟩ := start_none hstart
    rfl
  · obtain ⟨⟨watermark, log, rfl⟩, -⟩ := start_some hstart
    rfl

lemma settings_complete (p : Partition) (change : SegmentChange) :
    (p.complete change).2.settings = p.settings := by
  obtain ⟨index, metrics, log, hframe⟩ := p.perform_frame change
  change (p.perform change).2.settings = p.settings
  rw [hframe]

lemma settings_closeWith (p : Partition) (result : Except GateError CloseStatus) :
    (p.closeWith result).2.settings = p.settings := by
  obtain ⟨-, gate, metrics, log, -, hframe⟩ := p.closeWith_frame result
  rw [hframe]

lemma settings_beginClose (p : Partition) : p.beginClose.2.settings = p.settings := by
  unfold beginClose
  split
  · exact settings_closeWith _ _
  · exact settings_closeWith _ _
  · rfl

lemma settings_closeOverflowing (p : Partition) :
    p.closeOverflowing.2.settings = p.settings := by
  unfold closeOverflowing
  split
  · exact settings_closeWith _ _
  · rfl

lemma settings_resumeClose (p : Partition) : p.resumeClose.2.settings = p.settings := by
  unfold resumeClose
  split
  · exact settings_closeWith p (.ok .drained)
  · rfl

/-- A turn leaves the settings alone. -/
lemma settings_turn (p : Partition) (turn : Turn) : (p.turn turn).2.settings = p.settings := by
  cases turn with
  | call call => exact p.call_settings call
  | start change => exact p.settings_start change
  | complete change => exact p.settings_complete change
  | beginClose => exact p.settings_beginClose
  | closeOverflowing => exact p.settings_closeOverflowing
  | resumeClose => exact p.settings_resumeClose
  | abandonClose => exact settings_closeWith _ _

lemma settings_turns (p : Partition) (done : List Turn) :
    (p.turns done).settings = p.settings := by
  induction done generalizing p with
  | nil => rfl
  | cons turn rest ih => exact (ih (p.turn turn).2).trans (p.settings_turn turn)

/-! ## What can fail -/

/-- If keys expire, the time column is known. -/
lemma maxTime_blameless {p : Partition} (timed : p.settings.timeColumn.isSome = true)
    (segment : Segment) : Blameless (p.maxTime segment) := by
  obtain ⟨column, hcolumn⟩ := Option.isSome_iff_exists.1 timed
  unfold maxTime
  rw [hcolumn]
  exact blameless_mapError nofun _

lemma start_blameless {p : Partition}
    (timed : p.settings.ttlEnabled = true → p.settings.timeColumn.isSome = true)
    {change : SegmentChange} {result : SegmentResult} {q : Partition}
    (h : p.start change = (some result, q)) : Blameless result := by
  have hstarted := startedTo_of_eq h
  generalize hanswer : some result = answer at hstarted
  cases hstarted with
  | empty | stopped =>
    cases hanswer
    exact blameless_ok _
  | unsupported =>
    cases hanswer
    exact blameless_error nofun
  | begun => cases hanswer
  | ended gate found q hsealed inside check =>
    cases hanswer
    refine Blameless.mapError ?_ p change
    have hchecked := checkedTo_of_eq check
    generalize hfound : some found = answer at hchecked
    cases hchecked with
    | lasting | live => cases hfound
    | expired =>
      cases hfound
      exact blameless_ok _
    | unread e ttlEnabled hmax =>
      cases hfound
      exact (maxTime_blameless (timed ttlEnabled) change.target).of_eq hmax

lemma readAll_blameless (p : Partition) (segment : Segment) : Blameless (p.readAll segment) :=
  blameless_mapError nofun _

lemma readOld_blameless (p : Partition) (old : Option Segment) : Blameless (p.readOld old) := by
  cases old with
  | none => exact blameless_ok _
  | some old =>
    cases hread : p.readAll old with
    | ok records =>
      rw [readOld_ok hread]
      exact blameless_ok _
    | error e =>
      rw [readOld_error hread]
      exact (p.readAll_blameless old).of_eq hread

lemma offerRecords_blameless (p : Partition) (segment : Segment)
    (old : Option (SegmentId × List Record)) (records : List Record) :
    Blameless (p.offerRecords segment old records).1 := by
  unfold offerRecords
  dsimp only
  split
  · exact blameless_error nofun
  · exact blameless_ok _

lemma perform_blameless (p : Partition) (change : SegmentChange) :
    Blameless (p.perform change).1 := by
  unfold perform
  cases hread : p.readAll change.target with
  | error e => exact (p.readAll_blameless change.target).of_eq hread
  | ok records =>
    cases change with
    | remove segment => exact blameless_ok _
    | add segment | replace _ segment =>
      dsimp only
      split
      next e hold => exact (p.readOld_blameless _).of_eq hold
      next old hold => exact p.offerRecords_blameless segment old records

lemma complete_blameless (p : Partition) (change : SegmentChange) :
    Blameless (p.complete change).1 :=
  (p.perform_blameless change).mapError (p.perform change).2 change

lemma change_blameless {p : Partition}
    (timed : p.settings.ttlEnabled = true → p.settings.timeColumn.isSome = true)
    (change : SegmentChange) : Blameless (p.change change).1 := by
  rcases hstart : p.start change with ⟨_ | result, q⟩
  · rw [change_of_start_none hstart]
    exact q.complete_blameless change
  · rw [change_of_start_some hstart]
    exact start_blameless timed hstart

lemma ingest_blameless (p : Partition) (segment : SegmentId) (record : Record) :
    Blameless (p.ingest segment record).1 := by
  have hingested := p.ingest_ingested segment record
  generalize (p.ingest segment record).1 = result at hingested ⊢
  generalize (p.ingest segment record).2.index = index at hingested
  cases hingested with
  | skipped | indexed => exact blameless_ok _
  | refused => exact blameless_error nofun

lemma sweep_blameless (p : Partition) : Blameless p.sweep.1 := by
  have hswept := p.sweep_sweptTo
  generalize p.sweep.1 = result at hswept ⊢
  generalize p.sweep.2 = q at hswept
  cases hswept with
  | lasting | stopped | swept => exact blameless_ok _
  | failed => exact blameless_error nofun

lemma closeWith_blameless (p : Partition) (result : Except GateError CloseStatus) :
    Blameless (p.closeWith result).1 := by
  unfold closeWith release
  split
  · exact blameless_error nofun
  · exact blameless_ok _
  · dsimp only
    split
    · exact blameless_error nofun
    · exact blameless_ok _

lemma beginClose_blameless (p : Partition) :
    ∀ answer ∈ p.beginClose.1.answer?, answer.IsBlameless := by
  unfold beginClose
  split
  next e gate _ =>
    rintro _ ⟨⟩
    exact closeWith_blameless { p with gate } (.error e)
  next status gate _ =>
    rintro _ ⟨⟩
    exact closeWith_blameless { p with gate } (.ok status)
  next => exact nofun

lemma closeOverflowing_blameless (p : Partition) :
    ∀ result ∈ p.closeOverflowing.1, Blameless result := by
  unfold closeOverflowing
  split
  next answer gate _ =>
    rintro _ ⟨⟩
    exact closeWith_blameless { p with gate } answer
  next => exact nofun

lemma resumeClose_blameless (p : Partition) :
    ∀ answer ∈ p.resumeClose.1.answer?, answer.IsBlameless := by
  unfold resumeClose
  split
  · rintro _ ⟨⟩
    exact closeWith_blameless p (.ok .drained)
  · exact nofun

lemma closeNow_blameless (p : Partition) : Blameless p.closeNow.1 := by
  have hbegin := p.beginClose_blameless
  unfold closeNow
  rcases hclose : p.beginClose with ⟨result | _, q⟩
  · rw [hclose] at hbegin
    exact hbegin (.close result) rfl
  · exact closeWith_blameless _ _

/-- No turn ends with a failure that comes from the settings. -/
lemma turn_blameless {p : Partition}
    (timed : p.settings.ttlEnabled = true → p.settings.timeColumn.isSome = true) (turn : Turn) :
    ∀ answer ∈ (p.turn turn).1, answer.IsBlameless := by
  cases turn with
  | call call =>
    rintro _ ⟨⟩
    cases call with
    | change change => exact change_blameless timed change
    | ingest segment record => exact p.ingest_blameless segment record
    | sweep => exact p.sweep_blameless
    | stop => trivial
    | close => exact p.closeNow_blameless
  | start change =>
    intro answer hanswer
    obtain ⟨result, hresult, rfl⟩ := Option.mem_map.1 hanswer
    exact start_blameless timed (q := (p.start change).2) (Prod.ext hresult rfl)
  | complete change =>
    rintro _ ⟨⟩
    exact p.complete_blameless change
  | beginClose => exact p.beginClose_blameless
  | closeOverflowing =>
    intro answer hanswer
    obtain ⟨result, hresult, rfl⟩ := Option.mem_map.1 hanswer
    exact p.closeOverflowing_blameless result hresult
  | resumeClose => exact p.resumeClose_blameless
  | abandonClose =>
    rintro _ ⟨⟩
    exact closeWith_blameless _ _

/-! ## The result -/

/-- **The check answers a normal form.**  Settings that it accepts become settings that it
accepts as they are.  Their retention is a number and not negative, they have a key column, and
those of an upsert table have comparison columns with the time column among them.  A partition
can be set up with them, keeps them, and no failure ever comes from them: the column that
tells the largest time of a segment is always known when it is looked for. -/
theorem checked_settings_are_normal {c s : Settings} (accepted : c.checked = .ok s) :
    s.checked = .ok s ∧
    (s.ttl.isNaN = false ∧ Binary64.zero ≤ s.ttl) ∧
    s.keyColumns ≠ [] ∧
    (s.kind = .upsert → s.comparisonColumns ≠ [] ∧
      ∃ column ∈ s.comparisonColumns, s.timeColumn = some column) ∧
    ∀ index choice metrics, ∃ p, build c index choice metrics = .ok p ∧ ∀ done,
      (p.turns done).settings = s ∧
      (s.ttlEnabled = true → ∀ segment, Blameless ((p.turns done).maxTime segment)) ∧
      ∀ turn, ∀ answer ∈ ((p.turns done).turn turn).1, answer.IsBlameless := by
  have normal := (Settings.isNormal_of_checked accepted).1
  refine ⟨Settings.checked_of_isNormal normal, ⟨normal.isNaN_ttl, normal.zero_le_ttl⟩,
    normal.keyColumns_ne_nil,
    fun upsert => ⟨normal.comparisonColumns_ne_nil upsert, normal.upsert upsert⟩, ?_⟩
  intro index choice metrics
  obtain ⟨p, hbuild⟩ : ∃ p, build c index choice metrics = .ok p := by
    unfold build
    rw [accepted]
    exact ⟨_, rfl⟩
  refine ⟨p, hbuild, fun done => ?_⟩
  have hsettings : (p.turns done).settings = s := by
    rw [settings_turns]
    exact Except.ok.inj ((built_of_build hbuild).settings.symm.trans accepted)
  refine ⟨hsettings, fun ttlEnabled => maxTime_blameless ?_, turn_blameless ?_⟩
  · rw [hsettings]
    exact normal.timed ttlEnabled
  · rw [hsettings]
    exact normal.timed

end Partition

/-- Settings of an upsert table whose time column is to be inferred. -/
def Sample.untold : Settings := { expiring with timeColumn := none }

/-- A segment is being added when the partition is stopped. -/
def Sample.hurried : List Turn := [.start (.add aging), .call .stop, .beginClose]

/-- The time column is the comparison column, and is there when the second half of the operation
runs and another one comes too late. -/
theorem checked_settings_are_normal_untold :
    Sample.untold.checked = .ok Sample.expiring ∧
    Sample.expiring.checked = .ok Sample.expiring ∧
    Binary64.zero ≤ Sample.expiring.ttl ∧
    (∃ column ∈ Sample.expiring.comparisonColumns,
      Sample.expiring.timeColumn = some column) ∧
    ∃ p, Partition.build Sample.untold { backend := .sorted {} }
        (.given { medium := .memory {} }) .off = .ok p ∧
      Blameless ((p.turns Sample.hurried).maxTime Sample.torn) ∧
      ∀ answer ∈ ((p.turns Sample.hurried).turn (.complete (.add Sample.aging))).1,
        answer.IsBlameless := by
  have accepted : Sample.untold.checked = .ok Sample.expiring := rfl
  obtain ⟨hagain, ⟨-, hzero⟩, -, hupsert, hbuild⟩ :=
    Partition.checked_settings_are_normal accepted
  obtain ⟨p, hbuild, hturns⟩ := hbuild { backend := .sorted {} } (.given { medium := .memory {} })
    .off
  obtain ⟨-, htimes, hanswers⟩ := hturns Sample.hurried
  exact ⟨accepted, hagain, hzero, (hupsert rfl).2, p, hbuild, htimes (by decide) Sample.torn,
    hanswers _⟩

end PartitionKeys
