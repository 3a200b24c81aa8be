/-
# What the removal of an expired segment leaves behind

A removal looks at the largest time of the segment only: if even that is below the floor, the
entries of the segment are left for the next sweep.  An entry has the time of its own record,
which is not above that, unless a single record of the segment has won against a record with a
later time and inherited it.  Such an entry is live, and no sweep drops it.
-/
import PartitionKeys.Proofs.Partition.Origin
import PartitionKeys.Proofs.Partition.Skipping
import PartitionKeys.Proofs.Version.Maxima

namespace PartitionKeys

namespace Partition

variable {p : Partition} {key : IndexKey} {entry : Entry}

/-! ## Removals that are skipped -/

lemma of_maxTime {segment : Segment} {time : Binary64} (h : p.maxTime segment = .ok time) :
    ∃ column, p.settings.timeColumn = some column ∧ segment.maxTime column = .ok time := by
  unfold maxTime at h
  cases hcolumn : p.settings.timeColumn with
  | none =>
    rw [hcolumn] at h
    cases h
  | some column =>
    rw [hcolumn] at h
    dsimp only at h
    cases hmax : segment.maxTime column with
    | error e =>
      rw [hmax] at h
      cases h
    | ok largest =>
      rw [hmax] at h
      cases h
      exact ⟨column, rfl, hmax⟩

/-- A removal that is skipped as expired has compared the largest time of the segment with the
floor, inside the gate, and changes nothing but the log. -/
lemma removal_skipped {segment : Segment} {time floor : Binary64}
    (h : (p.change (.remove segment)).1 = .ok (.skipped (.outOfTtl time floor))) :
    p.settings.ttlEnabled = true ∧ p.maxTime segment = .ok time ∧ floor = p.floor ∧
      time < floor ∧ (∃ gate, p.gate.enter? = some gate) ∧
      ∃ log, (p.change (.remove segment)).2 = { p with log } := by
  obtain ⟨hreason, hframe⟩ := change_skipped h
  cases hreason with
  | expired gate time hgate hmax hexpired =>
    exact ⟨hexpired.ttlEnabled, hmax, rfl, hexpired.below, ⟨gate, hgate⟩, hframe⟩

lemma sweep_index_of_enter (ttlEnabled : p.settings.ttlEnabled = true) {gate : Gate}
    (hgate : p.gate.enter? = some gate) : p.sweep.2.index = (p.index.sweep p.floor).2 := by
  have hdone := p.sweep_sweptTo
  generalize p.sweep.1 = result at hdone
  generalize p.sweep.2 = q at hdone ⊢
  cases hdone with
  | lasting ttlDisabled => cases ttlEnabled.symm.trans ttlDisabled
  | stopped log outside => cases hgate.symm.trans outside
  | failed => rfl
  | swept => rfl

/-! ## Inherited times -/

/-- An entry has the time of a record that its own record has superseded: this one was taken in
alone and won by the per-column rule. -/
def InheritsTime (p : Partition) (calls : List Call) (key : IndexKey) (entry : Entry) : Prop :=
  p.settings.kind = .upsert ∧ ∃ before segment record after held,
    calls = before ++ .ingest segment record :: after ∧ p.keyOf record.key = key ∧
    ((p.run before).ingest segment record).1 = .ok (.indexed .superseded) ∧
    (p.run before).index.get? key = some held ∧
    entry.location = ⟨segment, record.doc⟩ ∧ entry.time = held.time

/-- An entry has the time of its own record, or it has inherited its time. -/
lemma time_of_record (empty : p.index.keys = []) {calls : List Call}
    (hget : (p.run calls).index.get? key = some entry) :
    ∃ before call after, calls = before ++ call :: after ∧ ∃ segment record,
      (p.run before).Accepts call segment record ∧ entry.location = ⟨segment, record.doc⟩ ∧
      (entry.time = Entry.timeOf record.version p.settings.timeColumn ∨
        p.InheritsTime calls key entry) := by
  obtain ⟨before, call, after, rfl, hwrites⟩ := written_of_run empty hget
  have hsettings := p.run_settings before
  refine ⟨before, call, after, rfl, ?_⟩
  cases hwrites with
  | own segment record accepts =>
    exact ⟨segment, record, accepts, rfl, .inl (by rw [← hsettings]; rfl)⟩
  | joined segment record held version hcall superseded hheld hkind hjoin =>
    subst hcall
    refine ⟨segment, record, .ingested segment record superseded nofun, rfl, ?_⟩
    rcases Entry.timeOf_join hjoin (p.run before).settings.timeColumn
      with ⟨time, hown, hjoined⟩ | hjoined
    · left
      rw [← hsettings, Entry.timeOf, hown]
      exact hjoined
    · right
      refine ⟨hsettings ▸ hkind, before, segment, record, after, held, rfl, ?_, superseded, hheld,
        rfl, ?_⟩
      · rw [keyOf, keyOf, hsettings]
      · rw [time_of_run empty hheld, ← hsettings]
        exact hjoined

/-- **What an expired segment leaves behind.**  A removal is skipped since the largest time of
the segment is below the floor; the statistics are those of a list of records that has all
records accepted under the segment, and their times are positive numbers of one type.  Then
each entry in the segment is below the floor, but for those that have inherited their times, and
the next sweep leaves none but these. -/
theorem expired_segment_leaves_inherited_times {calls : List Call} (empty : p.index.keys = [])
    {segment : Segment} {records : List Record} {type : ValueType} {time floor : Binary64}
    (derived : segment.maxima = ColumnMaxima.ofRecords records)
    (complete : ∀ before call after, calls = before ++ call :: after → ∀ id record,
      (p.run before).Accepts call id record → id.same segment.id = true → record ∈ records)
    (typed : ∀ column, p.settings.timeColumn = some column →
      ∀ record ∈ records, record.version.HasTimes type column)
    (skipped : ((p.run calls).change (.remove segment)).1 =
      .ok (.skipped (.outOfTtl time floor))) :
    (∀ key entry, (p.run calls).index.get? key = some entry →
        entry.location.isIn segment.id = true →
        entry.time < floor ∨ p.InheritsTime calls key entry) ∧
      ∀ key entry, (p.run (calls ++ [.change (.remove segment), .sweep])).index.get? key =
          some entry →
        entry.location.isIn segment.id = true →
        ¬entry.time < floor ∧ p.InheritsTime calls key entry := by
  obtain ⟨ttlEnabled, hmax, rfl, hbelow, ⟨gate, hgate⟩, log, hleft⟩ := removal_skipped skipped
  have hsettings := p.run_settings calls
  obtain ⟨column, hcolumn, hlargest⟩ : ∃ column, p.settings.timeColumn = some column ∧
      segment.maxTime column = .ok time := by
    rw [← hsettings]
    exact of_maxTime hmax
  obtain ⟨hpositive, hrecords⟩ :=
    Segment.bounded_by_maxTime derived (typed column hcolumn) hlargest
  have hfirst : ∀ key entry, (p.run calls).index.get? key = some entry →
      entry.location.isIn segment.id = true →
      entry.time < (p.run calls).floor ∨ p.InheritsTime calls key entry := by
    intro key entry hget hin
    obtain ⟨before, call, after, hcalls, id, record, haccepts, hlocation, hown | hinherits⟩ :=
      time_of_record empty hget
    · left
      rw [hlocation] at hin
      have hmem := complete before call after hcalls id record haccepts hin
      rw [hown, hcolumn, Entry.timeOf, Option.bind_some]
      -- a record without a time counts for zero, and the largest time is above that
      cases htime : record.version.time? column with
      | none => exact Binary64.lt_trans hpositive hbelow
      | some own => exact Binary64.lt_of_le_of_lt (hrecords record hmem own htime) hbelow
    · exact .inr hinherits
  refine ⟨hfirst, fun key entry hget hin => ?_⟩
  -- the removal has changed nothing but the log, so that the sweep goes by the same floor
  have hrun : p.run (calls ++ [.change (.remove segment), .sweep]) =
      (sweep { p.run calls with log }).2 := by
    rw [run, List.foldl_append, ← run]
    exact congrArg (fun q => (sweep q).2) hleft
  have hwell : (p.run calls).index.WellFormed := wellFormed_run empty calls
  rw [hrun, sweep_index_of_enter (p := { p.run calls with log }) ttlEnabled hgate,
    KeyIndex.get?_sweep hwell, Option.filter_eq_some_iff] at hget
  obtain ⟨hget, hkept⟩ := hget
  -- kept is more than not stale: a time that is no number is swept, but not stale
  have hlive : ¬entry.time < (p.run calls).floor := by
    have hle : (p.run calls).floor ≤ entry.time := of_decide_eq_true hkept
    exact fun hlt => Binary64.lt_irrefl _ (Binary64.lt_of_le_of_lt hle hlt)
  exact ⟨hlive, (hfirst key entry hget hin).resolve_left hlive⟩

end Partition

/-! ## A record with a later number and an earlier time -/

namespace Sample

/-- A partition whose keys expire and whose versions are compared by a number before the time. -/
def numbering : Partition :=
  { partition { backend := .unordered {} } with
    settings := { expiring with comparisonColumns := ["seq", "at"] } }

/-- A record of such a partition. -/
def numbered (key : Int64) (doc : UInt32) (seq at_ : Int64) : Record :=
  ⟨⟨[.int key]⟩, doc, ⟨[("seq", .full (.int seq)), ("at", .full (.int at_))]⟩⟩

/-- The record of segment 2 wins by its number and inherits a time of 100 from segment 1; then
a key with a time of 109 comes. -/
def overtaking : List Call :=
  [.ingest ⟨1, "s1"⟩ (numbered 1 0 1 100), .ingest ⟨2, "s2"⟩ (numbered 1 0 2 95),
    .ingest ⟨1, "s1"⟩ (numbered 2 1 1 109)]

/-- Segment 2. -/
def overtaken : Segment := .ofRecords ⟨2, "s2"⟩ .immutable [numbered 1 0 2 95]

lemma hasTimes_numbered {key : Int64} {doc : UInt32} {seq at_ : Int64}
    (h : Binary64.zero < Binary64.ofInt at_.toInt) :
    (numbered key doc seq at_).version.HasTimes .int "at" := by
  intro value hmem
  obtain rfl : value = .int at_ := by simpa [numbered] using hmem
  exact ⟨rfl, _, rfl, h⟩

lemma overtaking_accepts {before after : List Call} {call : Call} {id : SegmentId}
    {record : Record} (hcalls : overtaking = before ++ call :: after)
    (haccepts : (numbering.run before).Accepts call id record) :
    record.version.HasTimes .int "at" ∧
      (id.same ⟨2, "s2"⟩ = true → record ∈ [numbered 1 0 2 95]) := by
  have hmem : call ∈ overtaking := by simp [hcalls]
  simp only [overtaking, List.mem_cons, List.not_mem_nil, or_false] at hmem
  rcases hmem with rfl | rfl | rfl <;> cases haccepts <;>
    exact ⟨hasTimes_numbered (by decide +kernel), by decide⟩

/-- The times 95 and 99. -/
lemma overtaken_skipped : ((numbering.run overtaking).change (.remove overtaken)).1 =
    .ok (.skipped (.outOfTtl ⟨0x4057c00000000000⟩ ⟨0x4058c00000000000⟩)) := by
  decide +kernel

/-- The entry of key 1 is in segment 2 and not below 99. -/
lemma overtaken_live : ∃ entry, (numbering.run overtaking).index.get? (key 1) = some entry ∧
    entry.location.isIn overtaken.id = true ∧ ¬entry.time < ⟨0x4058c00000000000⟩ := by
  have h : ((numbering.run overtaking).index.get? (key 1)).any (fun entry =>
      entry.location.isIn overtaken.id && !decide (entry.time < ⟨0x4058c00000000000⟩)) = true := by
    decide +kernel
  simpa [Option.any_eq_true] using h

end Sample

open Sample in
/-- The entry that is left over has inherited its time. -/
theorem expired_segment_leaves_inherited_times_overtaking :
    ((numbering.run overtaking).change (.remove overtaken)).1 =
        .ok (.skipped (.outOfTtl ⟨0x4057c00000000000⟩ ⟨0x4058c00000000000⟩)) ∧
      ∃ entry, (numbering.run overtaking).index.get? (key 1) = some entry ∧
        numbering.InheritsTime overtaking (key 1) entry := by
  have hderived : overtaken.maxima = ColumnMaxima.ofRecords [numbered 1 0 2 95] := rfl
  obtain ⟨hentries, -⟩ := Partition.expired_segment_leaves_inherited_times rfl hderived
    (fun _ _ _ hcalls _ _ haccepts => (overtaking_accepts hcalls haccepts).2)
    (by
      rintro _ ⟨⟩ record hmem
      obtain rfl := List.mem_singleton.1 hmem
      exact hasTimes_numbered (by decide +kernel))
    overtaken_skipped
  obtain ⟨entry, hget, hin, hlive⟩ := overtaken_live
  exact ⟨overtaken_skipped, entry, hget, (hentries _ entry hget hin).resolve_left hlive⟩

open Sample in
/-- All times are positive numbers of one type, the removal of an expired segment is skipped,
and an entry of the segment is live. -/
theorem expired_segment_can_leave_a_live_entry :
    ¬ ∀ (p : Partition) (calls : List Call) (segment : Segment) (records : List Record)
      (type : ValueType) (time floor : Binary64), p.index.keys = [] →
      segment.maxima = ColumnMaxima.ofRecords records →
      (∀ before call after, calls = before ++ call :: after → ∀ id record,
        (p.run before).Accepts call id record →
          (∀ column, p.settings.timeColumn = some column → record.version.HasTimes type column) ∧
          (id.same segment.id = true → record ∈ records)) →
      (∀ column, p.settings.timeColumn = some column →
        ∀ record ∈ records, record.version.HasTimes type column) →
      ((p.run calls).change (.remove segment)).1 = .ok (.skipped (.outOfTtl time floor)) →
      ∀ key entry, (p.run calls).index.get? key = some entry →
        entry.location.isIn segment.id = true → entry.time < floor := by
  intro h
  obtain ⟨entry, hget, hin, hlive⟩ := overtaken_live
  refine hlive (h numbering overtaking overtaken [numbered 1 0 2 95] .int _ _ rfl rfl ?_ ?_
    overtaken_skipped (key 1) entry hget hin)
  · intro before call after hcalls id record haccepts
    obtain ⟨htimes, hmem⟩ := overtaking_accepts hcalls haccepts
    refine ⟨?_, hmem⟩
    rintro _ ⟨⟩
    exact htimes
  · rintro _ ⟨⟩ record hmem
    obtain rfl := List.mem_singleton.1 hmem
    exact hasTimes_numbered (by decide +kernel)

end PartitionKeys
