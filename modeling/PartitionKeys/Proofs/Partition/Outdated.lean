/-
# Segments that come too late

A new segment is skipped as expired if its largest time is below the floor.  That time is read
off the statistics of the segment, a maximum by the order of values, while an entry gets its
time from its own record, as a number, with zero where there is none.  For positive times of one
type the two agree: the largest time is the largest entry time, and it is below the floor if and
only if all of them are.
-/
import PartitionKeys.Proofs.Partition.LargestTime
import PartitionKeys.Proofs.Partition.Skipping
import PartitionKeys.Proofs.Version.Maxima

namespace PartitionKeys

/-- No entry gets a time from a record of a segment that is above the largest time of the
segment. -/
lemma Segment.timeOf_le_maxTime {type : ValueType} {column : String} {segment : Segment}
    {records : List Record} {largest : Binary64}
    (derived : segment.maxima = ColumnMaxima.ofRecords records)
    (typed : ∀ record ∈ records, record.version.HasTimes type column)
    (hmax : segment.maxTime column = .ok largest) :
    ∀ record ∈ records, Entry.timeOf record.version (some column) ≤ largest := by
  intro record hrecord
  obtain ⟨hpositive, hbounds⟩ := bounded_by_maxTime derived typed hmax
  rw [Entry.timeOf, Option.bind_some]
  -- a record without a time counts for zero, and the largest time is above that
  cases htime : record.version.time? column with
  | none => exact Binary64.le_of_lt hpositive
  | some own => exact hbounds record hrecord own htime

namespace Partition

variable {p : Partition} {change : SegmentChange} {gate : Gate} {largest : Binary64}

/-- A new segment that is let in is skipped as expired exactly if its largest time is below the
floor once the watermark has seen it. -/
lemma change_expired_iff (brings : change.bringsRecords = true)
    (immutable : change.target.kind = .immutable) (ttlEnabled : p.settings.ttlEnabled = true)
    (entered : p.gate.enter? = some gate) (hmax : p.maxTime change.target = .ok largest)
    {time floor : Binary64} :
    (p.change change).1 = .ok (.skipped (.outOfTtl time floor)) ↔
      time = largest ∧ floor = (p.observe largest).floor ∧
        largest < (p.observe largest).floor := by
  constructor
  · intro h
    obtain ⟨hreason, -⟩ := change_skipped h
    cases hreason with
    | expired gate' _ _ htime hexpired =>
      obtain rfl : time = largest := Except.ok.inj (htime.symm.trans hmax)
      have hfloor : (p.observe time).floor = p.floor := by
        unfold Partition.floor observe
        rw [hexpired.observe_watermark]
      exact ⟨rfl, hfloor.symm, hfloor ▸ hexpired.below⟩
  · rintro ⟨rfl, rfl, hbelow⟩
    have hseeing : p.seeing change time = p.watermark.observe time := if_pos brings
    rcases hstart : p.start change with ⟨answer, q⟩
    cases startedTo_of_eq hstart with
    | empty log hkind => cases immutable.symm.trans hkind
    | unsupported _ hkind => exact absurd immutable hkind
    | stopped log outside => cases entered.symm.trans outside
    | ended gate' result q _ _ check =>
      rw [change_of_start_some hstart]
      cases checkedTo_of_eq check with
      | unread e _ hunread => cases hmax.symm.trans hunread
      | expired found watermark log _ hfound hseen below =>
        obtain rfl : found = time := Except.ok.inj (hfound.symm.trans hmax)
        rw [hseen, hseeing]
        rfl
    | begun gate' q _ _ check =>
      cases checkedTo_of_eq check with
      | lasting ttlDisabled => cases ttlEnabled.symm.trans ttlDisabled
      | live found watermark _ hfound hseen hlive =>
        obtain rfl : found = time := Except.ok.inj (hfound.symm.trans hmax)
        rw [hseen, hseeing] at hlive
        exact absurd hbelow hlive

/-- An immutable segment is not let in where nobody is. -/
lemma change_of_outside (immutable : change.target.kind = .immutable)
    (outside : p.gate.enter? = none) : (p.change change).1 = .ok (.skipped .stopped) := by
  rcases hstart : p.start change with ⟨answer, q⟩
  cases startedTo_of_eq hstart with
  | empty log hkind => cases immutable.symm.trans hkind
  | unsupported _ hkind => exact absurd immutable hkind
  | stopped log => rw [change_of_start_some hstart]
  | ended gate result q _ inside => cases outside.symm.trans inside
  | begun gate q _ inside => cases outside.symm.trans inside

/-- A new segment that is let in moves the watermark by its largest time. -/
lemma change_watermark_of_maxTime (brings : change.bringsRecords = true)
    (immutable : change.target.kind = .immutable) (ttlEnabled : p.settings.ttlEnabled = true)
    (entered : p.gate.enter? = some gate) (hmax : p.maxTime change.target = .ok largest) :
    (p.change change).2.watermark = p.watermark.observe largest := by
  have htime : p.settings.timeOf (.change change) = some largest := by
    rw [Settings.timeOf_change _ brings immutable, ← toOption_maxTime, hmax]
    rfl
  rw [change_watermark entered, htime, watermarkAfter_of_ttlEnabled ttlEnabled]
  rfl

/-- **A segment is skipped as expired exactly if all its records are.**  A new immutable segment
comes to a partition with retention.  Its statistics are those of its records; their times are
positive numbers of one type, at least one of them has a time, and none has two columns of one
name.  A partition that has been stopped lets nothing in.  Otherwise the watermark sees the
largest of the times that entries would get from the records, and the segment is skipped as
expired if and only if all these times are below the floor then. -/
theorem segment_expires_iff (brings : change.bringsRecords = true)
    (immutable : change.target.kind = .immutable) (ttlEnabled : p.settings.ttlEnabled = true)
    {records : List Record} (derived : change.target.maxima = ColumnMaxima.ofRecords records)
    (named : ∀ record ∈ records, record.version.columns.keys.Nodup)
    {type : ValueType} (typed : ∀ column, p.settings.timeColumn = some column →
      ∀ record ∈ records, record.version.HasTimes type column)
    (dated : ∃ record ∈ records, ∃ value,
      p.settings.timeColumn.bind record.version.value? = some value) :
    (p.gate.enter? = none → (p.change change).1 = .ok (.skipped .stopped)) ∧
    ∀ gate, p.gate.enter? = some gate → ∃ largest,
      (∃ record ∈ records, Entry.timeOf record.version p.settings.timeColumn = largest) ∧
      (∀ record ∈ records, Entry.timeOf record.version p.settings.timeColumn ≤ largest) ∧
      (p.change change).2.watermark = p.watermark.observe largest ∧
      ((∃ time floor, (p.change change).1 = .ok (.skipped (.outOfTtl time floor))) ↔
        ∀ record ∈ records,
          Entry.timeOf record.version p.settings.timeColumn < (p.change change).2.floor) ∧
      ∀ time floor, (p.change change).1 = .ok (.skipped (.outOfTtl time floor)) →
        time = largest ∧ floor = (p.change change).2.floor := by
  obtain ⟨record, hrecord, value, hvalue⟩ := dated
  obtain ⟨column, hcolumn, hvalue⟩ := Option.bind_eq_some_iff.1 hvalue
  have typed := typed column hcolumn
  obtain ⟨largest, hmax, holder, hholder, hattained⟩ :=
    Segment.exists_maxTime derived typed named ⟨record, hrecord, value, hvalue⟩
  have hbounds := Segment.timeOf_le_maxTime derived typed hmax
  have htime : Entry.timeOf holder.version (some column) = largest := by
    simp [Entry.timeOf, hattained]
  have hread : p.maxTime change.target = .ok largest := by
    rw [maxTime, hcolumn]
    dsimp only
    rw [hmax]
    rfl
  rw [hcolumn]
  refine ⟨change_of_outside immutable, fun gate entered => ?_⟩
  have hwatermark := change_watermark_of_maxTime brings immutable ttlEnabled entered hread
  have hfloor : (p.change change).2.floor = (p.observe largest).floor := by
    have hsettings : (p.change change).2.settings = p.settings := p.call_settings (.change change)
    unfold floor
    rw [hwatermark, hsettings]
    rfl
  rw [hfloor]
  refine ⟨largest, ⟨holder, hholder, htime⟩, hbounds, hwatermark, ⟨?_, ?_⟩, ?_⟩
  · rintro ⟨time, floor, hskipped⟩ record hrecord
    obtain ⟨-, -, hbelow⟩ :=
      (change_expired_iff brings immutable ttlEnabled entered hread).1 hskipped
    exact Binary64.lt_of_le_of_lt (hbounds record hrecord) hbelow
  · intro hall
    refine ⟨largest, _, (change_expired_iff brings immutable ttlEnabled entered hread).2
      ⟨rfl, rfl, ?_⟩⟩
    have hbelow := hall holder hholder
    rwa [htime] at hbelow
  · intro time floor hskipped
    obtain ⟨hlargest, hreported, -⟩ :=
      (change_expired_iff brings immutable ttlEnabled entered hread).1 hskipped
    exact ⟨hlargest, hreported⟩

end Partition

namespace Sample

/-- Records of which the newest is from the time 39 and one has no time. -/
def overdueRecords : List Record := 
  [⟨⟨[.int 3]⟩, 0, .empty⟩, record 4 1 (.int 39), record 5 2 (.int 20)]

/-- The segment of these records. -/
def overdue : Segment := segment 2 overdueRecords

/-- A partition that has seen the time 50 and has been stopped then. -/
def retired : Partition := aged.run [.stop]

lemma hasTimes_overdueRecords : ∀ record ∈ overdueRecords, record.version.HasTimes .int "at" := by
  have h39 : Binary64.zero < Binary64.ofInt (39 : Int64).toInt := by decide +kernel
  have h20 : Binary64.zero < Binary64.ofInt (20 : Int64).toInt := by decide +kernel
  intro record hmem value hvalue
  simp only [overdueRecords, List.mem_cons, List.not_mem_nil, or_false] at hmem
  rcases hmem with rfl | rfl | rfl
  · cases hvalue
  · obtain rfl : value = .int 39 := by simpa [Sample.record] using hvalue
    exact ⟨rfl, _, rfl, h39⟩
  · obtain rfl : value = .int 20 := by simpa [Sample.record] using hvalue
    exact ⟨rfl, _, rfl, h20⟩

end Sample

open Sample in
/-- The floor is 40, and all records are below it. -/
theorem segment_expires_iff_late :
    (∃ gate, aged.gate.enter? = some gate) ∧
    (∀ record ∈ overdueRecords,
      Entry.timeOf record.version (some "at") < (aged.change (.add overdue)).2.floor) ∧
    ∃ time floor, (aged.change (.add overdue)).1 = .ok (.skipped (.outOfTtl time floor)) := by
  have entered : aged.gate.enter? = some { pending := 2 } := by decide +kernel
  have hbelow : ∀ record ∈ overdueRecords,
      Entry.timeOf record.version (some "at") < (aged.change (.add overdue)).2.floor := by
    decide +kernel
  have hcolumn : aged.settings.timeColumn = some "at" := by decide +kernel
  have brings : (SegmentChange.add overdue).bringsRecords = true := rfl
  have derived : (SegmentChange.add overdue).target.maxima = .ofRecords overdueRecords := rfl
  have named : ∀ record ∈ overdueRecords, record.version.columns.keys.Nodup := by decide
  have typed : ∀ column, aged.settings.timeColumn = some column →
      ∀ record ∈ overdueRecords, record.version.HasTimes .int column := by
    intro column h
    obtain rfl : "at" = column := Option.some.inj (hcolumn.symm.trans h)
    exact hasTimes_overdueRecords
  have dated : ∃ record ∈ overdueRecords, ∃ value,
      aged.settings.timeColumn.bind record.version.value? = some value :=
    ⟨record 4 1 (.int 39), by decide, .int 39, by decide +kernel⟩
  obtain ⟨-, hinside⟩ := Partition.segment_expires_iff brings rfl (by decide +kernel) derived
    named typed dated
  obtain ⟨_, -, -, -, hiff, -⟩ := hinside _ entered
  rw [hcolumn] at hiff
  exact ⟨⟨_, entered⟩, hbelow, hiff.2 hbelow⟩

open Sample in
/-- After a stop the same segment is skipped for another reason, although it moves nothing and
all its records are below the floor. -/
theorem expired_segment_can_be_skipped_as_stopped :
    retired.settings.ttlEnabled = true ∧
    retired.watermark.observe (.ofInt 39) = retired.watermark ∧
    (∀ record ∈ overdueRecords, Entry.timeOf record.version (some "at") < retired.floor) ∧
    (retired.change (.add overdue)).1 = .ok (.skipped .stopped) :=
  ⟨by decide +kernel, by decide +kernel, by decide +kernel, by decide +kernel⟩

end PartitionKeys
