/-
# Times that are numbers

A not-a-number is below nothing and above nothing, so that an entry with such a time never
counts as stale and yet is dropped by every sweep.  Where all times that come in are numbers,
all times that are held stay numbers: an entry takes its time from its version, and a join of
two versions holds in each column what one of the two holds there.  The watermark stays a
number too and never falls, so with a finite retention the floor never falls either.
-/
import PartitionKeys.Proofs.Binary64.Subtraction
import PartitionKeys.Proofs.Partition.Failure
import PartitionKeys.Proofs.Partition.Run

namespace PartitionKeys

/-! ## Entries whose times are numbers -/

/-- Whether the time that a version gives is a number. -/
def Version.Timely (timeColumn : Option String) (version : Version) : Prop :=
  (Entry.timeOf version timeColumn).isNaN = false

/-- A version takes its time from a single column. -/
lemma Version.Timely.of_get? {timeColumn : Option String} {version first second : Version}
    (hfirst : first.Timely timeColumn) (hsecond : second.Timely timeColumn)
    (h : ∀ name, version.get? name = first.get? name ∨ version.get? name = second.get? name) :
    version.Timely timeColumn := by
  cases timeColumn with
  | none => rfl
  | some column =>
    unfold Version.Timely Entry.timeOf at hfirst hsecond ⊢
    simp only [Option.bind_some, time?, value?] at hfirst hsecond ⊢
    rcases h column with heq | heq
    · rw [heq]
      exact hfirst
    · rw [heq]
      exact hsecond

/-- Whether the time of an entry is a number, and would be one if it were taken from the version
anew. -/
structure Entry.Timely (timeColumn : Option String) (entry : Entry) : Prop where
  time : entry.time.isNaN = false
  version : entry.version.Timely timeColumn

lemma Entry.timely_of {timeColumn : Option String} {version : Version}
    (h : version.Timely timeColumn) (location : Location) :
    (Entry.of location version timeColumn).Timely timeColumn :=
  ⟨h, h⟩

/-- If the times of a present and a proposed entry are numbers, so is that of the entry that
comes of them. -/
lemma resolve_timely {present : Option Entry} {proposed entry : Entry} {t : Terms}
    {r : Resolution} (hproposed : proposed.Timely t.timeColumn)
    (hpresent : ∀ e, present = some e → e.Timely t.timeColumn)
    (h : resolve present proposed t = .ok r) (hr : r.entry? = some entry) :
    entry.Timely t.timeColumn := by
  cases resolve_resolved h with
  | inserted | tookOver =>
    cases hr
    exact hproposed
  | kept => cases hr
  | won held version hpresent' live owned hkind hdecide =>
    cases hr
    have hheld := hpresent held hpresent'
    exact Entry.timely_of
      (hproposed.version.of_get? hheld.version (ComparisonRule.get?_decide hdecide)) _

/-- Whether all times that are held are numbers. -/
def Timely (timeColumn : Option String) (entries : IndexKey → Option Entry) : Prop :=
  ∀ key entry, entries key = some entry → entry.Timely timeColumn

section Timely

variable {timeColumn : Option String} {before after : IndexKey → Option Entry}

lemma Timely.mono (h : Timely timeColumn before)
    (hsub : ∀ key entry, after key = some entry → before key = some entry) :
    Timely timeColumn after :=
  fun key entry hget => h key entry (hsub key entry hget)

lemma Timely.update (h : Timely timeColumn before) {entry : Entry}
    (hentry : entry.Timely timeColumn) (key : IndexKey) :
    Timely timeColumn (Function.update before key (some entry)) := by
  intro other found hget
  by_cases hkey : other = key
  · subst hkey
    rw [Function.update_self] at hget
    cases hget
    exact hentry
  · rw [Function.update_of_ne hkey] at hget
    exact h other found hget

lemma Timely.apply {i : KeyIndex} {proposed : Entry} {t : Terms}
    (h : Timely t.timeColumn i.get?) (hproposed : proposed.Timely t.timeColumn)
    (key : IndexKey) : Timely t.timeColumn (i.apply key proposed t).2.get? := by
  have hoffered := i.apply_offered key proposed t
  generalize (i.apply key proposed t).1 = answer at hoffered
  generalize (i.apply key proposed t).2.get? = entries at hoffered ⊢
  cases hoffered with
  | refused => exact h
  | rejected => exact h
  | written r entry resolution held =>
    exact h.update (resolve_timely hproposed (h key) resolution held) key

/-- A pass over records whose times are numbers, wherever it stops. -/
lemma Timely.passRun {o : Offering} {records : List Record} {pass : Pass}
    (h : Timely o.terms.timeColumn pass.index.get?)
    (timely : ∀ record ∈ records, record.version.Timely o.terms.timeColumn) :
    Timely o.terms.timeColumn (Pass.run o records pass).2.index.get? := by
  refine Pass.run_induction o (motive := fun records pass result =>
    (∀ record ∈ records, record.version.Timely o.terms.timeColumn) →
    Timely o.terms.timeColumn pass.index.get? → Timely o.terms.timeColumn result.2.index.get?)
    ?_ ?_ ?_ records pass timely h
  · exact fun _ _ h => h
  · intro record rest pass e next htook _ h
    cases htook with
    | refused _ _ entries =>
      rw [entries]
      exact h
  · intro record rest pass next htook ih timely h
    refine ih (fun other hmem => timely other (List.mem_cons_of_mem _ hmem)) ?_
    cases htook with
    | rejected _ _ entries =>
      rw [entries]
      exact h
    | written _ r entry resolution held entries =>
      rw [entries]
      have hproposed := Entry.timely_of (timely record List.mem_cons_self) (o.location record)
      exact h.update (resolve_timely hproposed (h _) resolution held) _

lemma Timely.of_run {o : Offering} {records : List Record} {i : KeyIndex}
    {result : Option IndexError × Pass}
    (hrun : Pass.run o records { index := i } = result) (h : Timely o.terms.timeColumn i.get?)
    (timely : ∀ record ∈ records, record.version.Timely o.terms.timeColumn) :
    Timely o.terms.timeColumn result.2.index.get? := by
  subst hrun
  exact Timely.passRun h timely

end Timely

/-! ## Calls with such times -/

/-- Whether the times of the records of a segment, if they can be read, are numbers. -/
def Segment.Timely (timeColumn : Option String) (segment : Segment) : Prop :=
  ∀ request records, segment.read request = .ok records →
    ∀ record ∈ records, record.version.Timely timeColumn

/-- Whether the times that a call brings in are numbers. -/
def Call.Timely (timeColumn : Option String) : Call → Prop
  | .change (.add segment) | .change (.replace _ segment) => segment.Timely timeColumn
  | .ingest _ record => record.version.Timely timeColumn
  | _ => True

lemma Segment.timely_ofRecords {timeColumn : Option String} {records : List Record}
    (h : ∀ record ∈ records, record.version.Timely timeColumn) (id : SegmentId)
    (kind : SegmentKind) : (Segment.ofRecords id kind records).Timely timeColumn := by
  intro request read hread
  have hcollect : (Segment.ofRecords id kind records).read request =
      Segment.collect (records.map .ok) := rfl
  rw [hcollect, Segment.collect_map_ok] at hread
  cases hread
  exact h

namespace Partition

variable {p : Partition}

lemma timely_of_readAll {segment : Segment} {timeColumn : Option String}
    (timely : segment.Timely timeColumn) {records : List Record}
    (h : p.readAll segment = .ok records) :
    ∀ record ∈ records, record.version.Timely timeColumn :=
  timely _ _ (read_of_readAll h)

/-- Whether all times that a partition holds are numbers. -/
def HoldsTimes (p : Partition) : Prop := Timely p.settings.timeColumn p.index.get?

lemma perform_holdsTimes {change : SegmentChange}
    (timely : (Call.change change).Timely p.settings.timeColumn) (h : p.HoldsTimes) :
    Timely p.settings.timeColumn (p.perform change).2.index.get? := by
  have hperformed := p.perform_performed change
  generalize (p.perform change).1 = result at hperformed
  generalize (p.perform change).2.index = index at hperformed ⊢
  generalize (p.perform change).2.log = log at hperformed
  cases hperformed with
  | unread => exact h
  | removed segment records hchange hread =>
    exact h.mono fun key entry hget => ((KeyIndex.get?_removeOwned _ _ _ _ _ _).1 hget).1
  | refused e pass hpass =>
    rw [(rollBack_pass? hpass).2]
    exact h
  | added segment records pass hchange hread hrun =>
    subst hchange
    exact Timely.of_run hrun h (timely_of_readAll timely hread)
  | replaced old new dropped records pass hchange hread hold hrun =>
    subst hchange
    have hpass := Timely.of_run hrun h (timely_of_readAll timely hread)
    exact Timely.mono hpass fun key entry hget =>
      ((KeyIndex.get?_removeOwned _ _ _ _ _ _).1 hget).1

lemma change_holdsTimes {change : SegmentChange}
    (timely : (Call.change change).Timely p.settings.timeColumn) (h : p.HoldsTimes) :
    Timely p.settings.timeColumn (p.change change).2.index.get? := by
  rcases p.change_index change with heq | ⟨watermark, gate, heq⟩
  · rw [heq]
    exact h
  · rw [heq]
    exact perform_holdsTimes (p := { p with watermark, gate }) timely h

lemma ingest_holdsTimes {segment : SegmentId} {record : Record}
    (timely : record.version.Timely p.settings.timeColumn) (h : p.HoldsTimes) :
    Timely p.settings.timeColumn (p.ingest segment record).2.index.get? := by
  have happlied (watermark) : Timely p.settings.timeColumn
      (p.applyRecord watermark segment record).2.get? := by
    have hheld : Timely (terms { p with watermark } .perColumn none).timeColumn p.index.get? := h
    exact hheld.apply (Entry.timely_of timely _) _
  have hingested := p.ingest_ingested segment record
  generalize (p.ingest segment record).1 = result at hingested
  generalize (p.ingest segment record).2.index = index at hingested ⊢
  cases hingested with
  | skipped => exact h
  | refused watermark => exact happlied watermark
  | indexed watermark => exact happlied watermark

/-- If all times that a partition holds are numbers, they stay so under calls that bring in
numbers. -/
lemma call_holdsTimes {call : Call} (timely : call.Timely p.settings.timeColumn)
    (hwell : p.index.WellFormed) (h : p.HoldsTimes) : (p.call call).HoldsTimes := by
  unfold HoldsTimes
  rw [call_settings]
  cases call with
  | change change => exact change_holdsTimes timely h
  | ingest segment record => exact ingest_holdsTimes timely h
  | sweep =>
    rw [Partition.call]
    rcases p.sweep_index with heq | heq
    · rw [heq]
      exact h
    · refine h.mono fun key entry hget => ?_
      rw [heq, KeyIndex.get?_sweep hwell] at hget
      exact (Option.filter_eq_some_iff.1 hget).1
  | stop =>
    obtain ⟨_, _, hframe⟩ := p.stop_frame
    rw [Partition.call, hframe]
    exact h
  | close =>
    rw [Partition.call, get?_closeNow]
    exact h

end Partition

/-! ## The watermark never falls -/

lemma Watermark.le_observe {w : Watermark} (h : w.time.isNaN = false) (time : Binary64) :
    w.time ≤ (w.observe time).time := by
  unfold observe
  split
  · next hlt => exact Binary64.le_of_lt hlt
  · exact ⟨h, h, le_refl _⟩

namespace Partition

/-- The watermark after an operation: as before, or moved by one time. -/
def Observed (p q : Partition) : Prop :=
  q.watermark = p.watermark ∨ ∃ time, q.watermark = p.watermark.observe time

lemma Observed.le {p q : Partition} (h : Observed p q) (number : p.watermark.time.isNaN = false) :
    p.watermark.time ≤ q.watermark.time := by
  rcases h with heq | ⟨time, heq⟩
  · rw [heq]
    exact ⟨number, number, le_refl _⟩
  · rw [heq]
    exact Watermark.le_observe number time

lemma CheckedTo.observed {p q : Partition} {change : SegmentChange}
    {answer : Option SegmentResult} (h : CheckedTo p change answer q) : Observed p q := by
  have hseeing (seen : Binary64) (log : List Event) :
      Observed p { p with watermark := p.seeing change seen, log } := by
    unfold seeing
    split
    · exact .inr ⟨seen, rfl⟩
    · exact .inl rfl
  cases h with
  | lasting => exact .inl rfl
  | unread => exact .inl rfl
  | expired time watermark log ttlEnabled hmax hseen =>
    subst hseen
    exact hseeing time log
  | live time watermark ttlEnabled hmax hseen =>
    subst hseen
    exact hseeing time p.log

lemma start_observed (p : Partition) (change : SegmentChange) :
    Observed p (p.start change).2 := by
  have hstarted := p.start_startedTo change
  generalize (p.start change).1 = answer at hstarted
  generalize (p.start change).2 = q at hstarted ⊢
  cases hstarted with
  | empty => exact .inl rfl
  | unsupported => exact .inl rfl
  | stopped => exact .inl rfl
  | ended gate result q hsealed inside check => exact (checkedTo_of_eq check).observed
  | begun gate q hsealed inside check => exact (checkedTo_of_eq check).observed

lemma change_observed (p : Partition) (change : SegmentChange) :
    Observed p (p.change change).2 := by
  have hobserved := p.start_observed change
  rcases hstart : p.start change with ⟨_ | result, q⟩
  · rw [hstart] at hobserved
    obtain ⟨_, _, _, hframe⟩ := q.perform_frame change
    rw [change_of_start_none hstart, hframe]
    exact hobserved
  · rw [hstart] at hobserved
    rw [change_of_start_some hstart]
    exact hobserved

lemma checkRecordTime_observed (p : Partition) (record : Record) :
    Observed p (p.checkRecordTime record).2 := by
  unfold checkRecordTime
  split
  · split
    · exact .inl rfl
    · dsimp only
      split <;> exact .inr ⟨_, rfl⟩
  · exact .inl rfl

lemma ingest_observed (p : Partition) (segment : SegmentId) (record : Record) :
    Observed p (p.ingest segment record).2 := by
  have hobserved := p.checkRecordTime_observed record
  have hdone := p.ingest_ingestedTo segment record
  generalize (p.ingest segment record).1 = result at hdone
  generalize (p.ingest segment record).2 = q at hdone ⊢
  cases hdone with
  | stopped => exact .inl rfl
  | expired gate watermark reason inside check =>
    rw [check] at hobserved
    exact hobserved
  | offered gate watermark inside check =>
    rw [check] at hobserved
    obtain ⟨_, _, _, hframe⟩ := offerRecord_frame { p with watermark } segment record
    rw [hframe]
    exact hobserved

lemma closeNow_watermark (p : Partition) : p.closeNow.2.watermark = p.watermark := by
  obtain ⟨-, _, _, _, -, hframe⟩ := p.closeNow_frame
  rw [hframe]

lemma call_observed (p : Partition) (call : Call) : Observed p (p.call call) := by
  cases call with
  | change change => exact p.change_observed change
  | ingest segment record => exact p.ingest_observed segment record
  | sweep => exact .inl p.sweep_watermark
  | stop =>
    obtain ⟨_, _, hframe⟩ := p.stop_frame
    rw [Partition.call, hframe]
    exact .inl rfl
  | close => exact .inl p.closeNow_watermark

/-! ## Partitions whose keys expire -/

/-- Keys expire, after a finite time, and all times are numbers. -/
structure Timed (p : Partition) : Prop where
  ttlEnabled : p.settings.ttlEnabled = true
  ttl : p.settings.ttl.isFinite = true
  watermark : p.watermark.time.isNaN = false
  wellFormed : p.index.WellFormed
  holdsTimes : p.HoldsTimes

namespace Timed

variable {p : Partition}

lemma isNaN_floor (h : p.Timed) : p.floor.isNaN = false := Binary64.isNaN_sub h.watermark h.ttl

/-- The floor never falls. -/
lemma floor_le (h : p.Timed) {q : Partition} (settings : q.settings = p.settings)
    (observed : Observed p q) : p.floor ≤ q.floor := by
  have hle := Binary64.sub_le_sub_right (observed.le h.watermark) h.ttl
  unfold floor
  rw [settings]
  exact hle

lemma call (h : p.Timed) {call : Call} (timely : call.Timely p.settings.timeColumn) :
    (p.call call).Timed where
  ttlEnabled := by
    rw [call_settings]
    exact h.ttlEnabled
  ttl := by
    rw [call_settings]
    exact h.ttl
  watermark := ((p.call_observed call).le h.watermark).2.1
  wellFormed := run_kept KeyIndex.wellFormed_kept p [call] h.wellFormed
  holdsTimes := call_holdsTimes timely h.wellFormed h.holdsTimes

lemma run (h : p.Timed) {calls : List Call}
    (timely : ∀ call ∈ calls, call.Timely p.settings.timeColumn) : (p.run calls).Timed := by
  refine (run_induction (motive := fun q => q.Timed ∧ q.settings = p.settings) ?_ ⟨h, rfl⟩).1
  rintro q call hmem ⟨hq, hsettings⟩
  refine ⟨hq.call ?_, (q.call_settings call).trans hsettings⟩
  rw [hsettings]
  exact timely call hmem

lemma of_empty (ttlEnabled : p.settings.ttlEnabled = true) (ttl : p.settings.ttl.isFinite = true)
    (watermark : p.watermark.time.isNaN = false) (empty : p.index.keys = []) : p.Timed where
  ttlEnabled := ttlEnabled
  ttl := ttl
  watermark := watermark
  wellFormed := KeyIndex.wellFormed_of_keys_eq_nil empty
  holdsTimes := by
    intro key entry hget
    rw [KeyIndex.get?_of_keys_eq_nil empty] at hget
    cases hget

end Timed

end Partition

end PartitionKeys
