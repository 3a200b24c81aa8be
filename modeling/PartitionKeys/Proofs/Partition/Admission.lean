/-
# A record that is taken in is live

A single record is checked against the floor by its own time, and the entry that it leaves has a
time of its own: that of the record, that of a join, or zero where there is none.  The two agree
but in one case: a record without a time that is inserted while the floor is above zero is stale
from the start.  Where the entry is live, a table that keeps the first record of each key turns
the same record away when it comes again.
-/
import PartitionKeys.Proofs.Partition.Origin
import PartitionKeys.Proofs.Partition.Staleness

namespace PartitionKeys

/-- A time that has been seen moves the watermark no more. -/
lemma Watermark.observe_observe (w : Watermark) (time : Binary64) :
    (w.observe time).observe time = w.observe time := by
  by_cases h : w.time < time
  · have hseen : w.observe time = ⟨time⟩ := if_pos h
    rw [hseen]
    exact if_neg (Binary64.lt_irrefl time)
  · have hseen : w.observe time = w := if_neg h
    rw [hseen, hseen]

namespace Partition

/-! ## What an admitted record has come through -/

/-- The time that a record brings with it. -/
def recordTime? (p : Partition) (record : Record) : Option Binary64 :=
  p.settings.timeColumn.bind record.version.time?

lemma checkRecordTime_none {p : Partition} {record : Record} {time : Binary64}
    (h : (p.checkRecordTime record).1 = none) (ttlEnabled : p.settings.ttlEnabled = true)
    (htime : p.recordTime? record = some time) :
    (p.checkRecordTime record).2.watermark = p.watermark.observe time ∧
      ¬time < (p.checkRecordTime record).2.floor := by
  unfold recordTime? at htime
  unfold checkRecordTime at h ⊢
  rw [if_pos ttlEnabled, htime] at h ⊢
  dsimp only at h ⊢
  split at h
  · cases h
  · next hlive =>
    rw [if_neg hlive]
    exact ⟨rfl, hlive⟩

/-- A record whose time has been seen and is not below the floor passes without a trace. -/
lemma checkRecordTime_seen {p : Partition} {record : Record}
    (h : p.settings.ttlEnabled = true → ∀ time, p.recordTime? record = some time →
      p.watermark.observe time = p.watermark ∧ ¬time < p.floor) :
    p.checkRecordTime record = (none, p) := by
  unfold checkRecordTime
  split
  · next ttlEnabled =>
    cases htime : p.settings.timeColumn.bind record.version.time? with
    | none => rfl
    | some time =>
      obtain ⟨hseen, hlive⟩ := h ttlEnabled time htime
      have hobserve : p.observe time = p := by rw [observe, hseen]
      simp only [hobserve, if_neg hlive]
  · rfl

/-- A partition after it has taken in a record: the record has been offered under the watermark
that stands now, which has seen its time and leaves the record alive. -/
structure Admitted (p : Partition) (segment : SegmentId) (record : Record) (outcome : Outcome)
    (after : Partition) : Prop where
  settings : after.settings = p.settings
  entered : ∃ gate, after.gate.enter? = some gate
  offered : ∃ update, update.outcome = outcome ∧
    p.applyRecord after.watermark segment record = (.ok update, after.index)
  checked : p.settings.ttlEnabled = true → ∀ time, p.recordTime? record = some time →
    after.watermark.observe time = after.watermark ∧ ¬time < after.floor

lemma ingest_admitted {p : Partition} {segment : SegmentId} {record : Record} {outcome : Outcome}
    (h : (p.ingest segment record).1 = .ok (.indexed outcome)) :
    Admitted p segment record outcome (p.ingest segment record).2 := by
  have hdone := p.ingest_ingestedTo segment record
  generalize hresult : (p.ingest segment record).1 = result at h hdone
  generalize (p.ingest segment record).2 = after at hdone ⊢
  cases hdone with
  | stopped => cases h
  | expired => cases h
  | offered gate watermark inside check =>
    have hchecked (time : Binary64) (ttlEnabled : p.settings.ttlEnabled = true)
        (htime : p.recordTime? record = some time) :=
      checkRecordTime_none (congrArg Prod.fst check) ttlEnabled htime
    rw [check] at hchecked
    obtain ⟨hanswer, hindex⟩ := offerRecord_eq { p with watermark } segment record
    obtain ⟨index, metrics, log, hoffer⟩ := offerRecord_frame { p with watermark } segment record
    rw [hoffer] at hindex ⊢
    rw [hanswer] at h
    refine ⟨rfl, ⟨gate, inside⟩, ?_, fun ttlEnabled time htime => ?_⟩
    · have happly : applyRecord { p with watermark } watermark segment record =
          p.applyRecord watermark segment record := rfl
      rw [happly] at h hindex
      rcases hcall : p.applyRecord watermark segment record with ⟨e | update, next⟩
      · rw [hcall] at h
        cases h
      · rw [hcall] at h hindex
        cases h
        obtain rfl : index = next := hindex
        exact ⟨update, rfl, rfl⟩
    · obtain ⟨hobserved, hlive⟩ := hchecked time ttlEnabled htime
      refine ⟨?_, hlive⟩
      change watermark.observe time = watermark
      rw [show watermark = p.watermark.observe time from hobserved, Watermark.observe_observe]

namespace Admitted

variable {p after : Partition} {segment : SegmentId} {record : Record} {outcome : Outcome}

/-- The entry of a record that was not turned away: it is stale only if the record was inserted
without a time while the floor is above zero. -/
lemma entry_iff (h : Admitted p segment record outcome after)
    (ttlEnabled : p.settings.ttlEnabled = true)
    (timed : ∀ held, p.index.get? (p.keyOf record.key) = some held →
      held.time = Entry.timeOf held.version p.settings.timeColumn)
    (accepted : outcome ≠ .rejected) :
    ∃ entry, after.index.get? (p.keyOf record.key) = some entry ∧
      entry.location = ⟨segment, record.doc⟩ ∧
      (entry.time < after.floor ↔ outcome = .inserted ∧ p.recordTime? record = none ∧
        Binary64.zero < after.floor) := by
  obtain ⟨update, rfl, happly⟩ := h.offered
  have hoffered := p.index.apply_offered (p.keyOf record.key) (p.recordEntry segment record)
    ({ p with watermark := after.watermark }.terms .perColumn none)
  have hfloor : ({ p with watermark := after.watermark }.terms .perColumn none).floor =
      some after.floor := by
    rw [floor, h.settings]
    exact if_pos ttlEnabled
  unfold applyRecord at happly
  rw [happly] at hoffered
  have hrecord (time : Binary64) (htime : p.recordTime? record = some time) :=
    (h.checked ttlEnabled time htime).2
  generalize hentries : after.index.get? = entries at hoffered ⊢
  cases hoffered with
  | rejected => exact absurd rfl accepted
  | written r entry resolution hwritten =>
    refine ⟨entry, Function.update_self _ _ _, resolve_location resolution hwritten, ?_⟩
    cases resolve_resolved resolution with
    | inserted =>
      cases hwritten
      have htime : (p.recordEntry segment record).time =
          (p.recordTime? record).getD Binary64.zero := rfl
      rw [htime]
      cases hown : p.recordTime? record with
      | none => simp [Resolution.outcome]
      | some time => simp [hrecord time hown]
    | tookOver held _ _ owned => cases owned
    | kept => cases hwritten
    | won held version hheld live _ _ hdecide =>
      cases hwritten
      refine iff_of_false ?_ (by simp [Resolution.outcome])
      rcases Entry.timeOf_join (Version.join_of_decide hdecide) p.settings.timeColumn
        with ⟨time, hown, hjoined⟩ | hjoined
      · rw [← hjoined] at hown
        exact hrecord _ hown
      · -- the record that is superseded was live under the same floor
        rw [← timed held hheld] at hjoined
        have hheldLive : ¬held.time < after.floor := by
          simpa [Terms.isStale, hfloor] using live
        rw [← hjoined] at hheldLive
        exact hheldLive

/-- The same record once more, in a table that keeps the first record of each key: it is turned
away, unless the entry is stale or the index fails. -/
lemma again (h : Admitted p segment record outcome after) (hkind : p.settings.kind = .dedup)
    (ttlEnabled : p.settings.ttlEnabled = true) {entry : Entry}
    (hget : after.index.get? (p.keyOf record.key) = some entry) :
    (after.ingest segment record).1 = match after.index.brokenApply with
      | some e => .error (.index e)
      | none => .ok (.indexed (if entry.time < after.floor then .inserted else .rejected)) := by
  obtain ⟨gate, hgate⟩ := h.entered
  have hsettings := h.settings
  have hcheck : checkRecordTime { after with gate } record = (none, { after with gate }) := by
    refine checkRecordTime_seen fun _ time htime => h.checked ttlEnabled time ?_
    rw [← htime, recordTime?, recordTime?, hsettings]
  have hopen : after.index.isClosed = false := by
    obtain ⟨update, -, happly⟩ := h.offered
    have haccepted := KeyIndex.isClosed_of_apply_ok (congrArg Prod.fst happly)
    rwa [← applyRecord, happly] at haccepted
  have hresult : (after.ingest segment record).1 =
      (offerRecord { after with gate } segment record).1 := by
    simp only [ingest, hgate, hcheck]
  have hcall : (applyRecord { after with gate } after.watermark segment record).1 =
      (after.index.verdict (p.keyOf record.key) (after.recordEntry segment record)
        (after.terms .perColumn none)).map (Resolution.update (some entry)) := by
    rw [← hget, keyOf, ← hsettings]
    exact (after.index.apply_verdict _ _ _).1
  rw [hresult, (offerRecord_eq _ _ _).1, hcall, KeyIndex.verdict]
  cases after.index.brokenApply with
  | some e => rfl
  | none =>
    have hstale : (after.terms .perColumn none).isStale entry =
        decide (entry.time < after.floor) := by
      simp [Terms.isStale, terms, hsettings, ttlEnabled]
    have hkind : (after.terms .perColumn none).kind = .dedup := by
      rw [← hkind, ← hsettings]
      rfl
    have howned : (after.terms .perColumn none).ownedByReplaced entry = false := rfl
    rw [hget]
    by_cases hbelow : entry.time < after.floor
    · simp [verdict, hopen, resolve, hstale, hbelow, Except.map, Except.mapError,
        Resolution.update]
    · simp [verdict, hopen, resolve, hstale, hbelow, resolvePresent, howned, hkind, Except.map,
        Except.mapError, Resolution.update]

end Admitted

/-- A record that is turned away by a table that keeps the first record of each key is reported
as a duplicate. -/
lemma ingest_log_of_rejected {p : Partition} {segment : SegmentId} {record : Record}
    (hkind : p.settings.kind = .dedup)
    (h : (p.ingest segment record).1 = .ok (.indexed .rejected)) :
    (p.ingest segment record).2.log =
      p.log ++ [.duplicateKey segment.name record.key.display] := by
  have hdone := p.ingest_ingestedTo segment record
  generalize (p.ingest segment record).1 = result at h hdone
  generalize (p.ingest segment record).2 = after at hdone ⊢
  cases hdone with
  | stopped => cases h
  | expired => cases h
  | offered gate watermark =>
    dsimp only [offerRecord] at h ⊢
    generalize p.index.apply _ _ _ = call at h ⊢
    obtain ⟨e | update, index⟩ := call
    · cases h
    · cases hupdate : update.outcome <;> simp_all [refreshGauge, setGauge, report]

/-- **Which admitted records are live.**  Take a partition whose keys expire, after any calls,
and a record that it then takes in and does not turn away.  The entry of its key is that of the
record, and it is stale exactly if the record has no time, was inserted, and the floor is above
zero.  A table that keeps the first record of each key turns the same record away when it comes
again at once and reports a duplicate, unless the entry is stale or the index fails. -/
theorem admitted_record_is_live_iff {p : Partition} {calls : List Call}
    (ttlEnabled : p.settings.ttlEnabled = true) (empty : p.index.keys = [])
    {segment : SegmentId} {record : Record} {outcome : Outcome} {after : Partition}
    (admitted : (p.run calls).ingest segment record = (.ok (.indexed outcome), after))
    (accepted : outcome ≠ .rejected) :
    ∃ entry, after.index.get? (p.keyOf record.key) = some entry ∧
      entry.location = ⟨segment, record.doc⟩ ∧
      (entry.time < after.floor ↔ outcome = .inserted ∧ p.recordTime? record = none ∧
        Binary64.zero < after.floor) ∧
      (p.settings.kind = .dedup →
        (after.ingest segment record).1 = (match after.index.brokenApply with
          | some e => .error (.index e)
          | none => .ok (.indexed (if entry.time < after.floor then .inserted else .rejected))) ∧
        ((after.ingest segment record).1 = .ok (.indexed .rejected) →
          (after.ingest segment record).2.log =
            after.log ++ [.duplicateKey segment.name record.key.display])) := by
  have hadmitted := ingest_admitted (congrArg Prod.fst admitted)
  rw [admitted] at hadmitted
  have hsettings := p.run_settings calls
  have hkey : (p.run calls).keyOf record.key = p.keyOf record.key := by
    rw [keyOf, hsettings, keyOf]
  have htime : (p.run calls).recordTime? record = p.recordTime? record := by
    rw [recordTime?, hsettings, recordTime?]
  rw [← hsettings] at ttlEnabled
  obtain ⟨entry, hget, hlocation, hstale⟩ :=
    hadmitted.entry_iff ttlEnabled (fun held hheld => by rw [time_of_run empty hheld, hsettings])
      accepted
  refine ⟨entry, hkey ▸ hget, hlocation, htime ▸ hstale, fun hkind => ⟨?_, fun hrejected => ?_⟩⟩
  · rw [← hsettings] at hkind
    exact hadmitted.again hkind ttlEnabled hget
  · rw [← hsettings, ← hadmitted.settings] at hkind
    exact ingest_log_of_rejected hkind hrejected

end Partition

namespace Sample

/-- A partition whose keys expire ten after the newest time, and that keeps the first record of
each key. -/
def keeping : Partition :=
  { partition { backend := .unordered {} } with
    settings := { settings with kind := .dedup, ttl := ⟨0x4024000000000000⟩ } }

/-- A record without a time. -/
def timeless (key : Int64) (doc : UInt32) : Record := ⟨⟨[.int key]⟩, doc, .empty⟩

end Sample

open Sample in
/-- A record that is not expired is taken in, and turned away when it comes again. -/
theorem admitted_record_is_live_iff_keeping :
    ∃ after, (keeping.run [.ingest ⟨1, "s1"⟩ (record 2 0 (.int 50))]).ingest ⟨1, "s1"⟩
        (record 1 1 (.int 45)) = (.ok (.indexed .inserted), after) ∧
      (after.ingest ⟨1, "s1"⟩ (record 1 1 (.int 45))).1 = .ok (.indexed .rejected) := by
  have hresult : ((keeping.run [.ingest ⟨1, "s1"⟩ (record 2 0 (.int 50))]).ingest ⟨1, "s1"⟩
      (record 1 1 (.int 45))).1 = .ok (.indexed .inserted) := by decide +kernel
  have hworks : ((keeping.run [.ingest ⟨1, "s1"⟩ (record 2 0 (.int 50))]).ingest ⟨1, "s1"⟩
      (record 1 1 (.int 45))).2.index.brokenApply = none := by decide +kernel
  rcases hingest : (keeping.run [.ingest ⟨1, "s1"⟩ (record 2 0 (.int 50))]).ingest ⟨1, "s1"⟩
    (record 1 1 (.int 45)) with ⟨result, after⟩
  rw [hingest] at hresult hworks
  subst hresult
  obtain ⟨entry, -, -, hstale, hagain⟩ :=
    Partition.admitted_record_is_live_iff (by decide +kernel) rfl hingest nofun
  have hlive : ¬entry.time < after.floor := fun hbelow => nomatch (hstale.1 hbelow).2.1
  refine ⟨after, rfl, ?_⟩
  rw [(hagain rfl).1, hworks, if_neg hlive]

open Sample in
/-- A record without a time is inserted, and its entry is stale at once. -/
theorem admitted_record_can_be_stale :
    ¬ ∀ (p : Partition) (calls : List Call) (segment : SegmentId) (record : Record)
      (outcome : Outcome) (after : Partition), p.settings.ttlEnabled = true →
      p.index.keys = [] →
      (p.run calls).ingest segment record = (.ok (.indexed outcome), after) →
      outcome ≠ .rejected → ∀ entry, after.index.get? (p.keyOf record.key) = some entry →
      ¬entry.time < after.floor := by
  intro h
  have hresult : ((keeping.run [.ingest ⟨1, "s1"⟩ (record 2 0 (.int 50))]).ingest ⟨1, "s1"⟩
      (timeless 1 1)).1 = .ok (.indexed .inserted) := by decide +kernel
  have hstale : (((keeping.run [.ingest ⟨1, "s1"⟩ (record 2 0 (.int 50))]).ingest ⟨1, "s1"⟩
      (timeless 1 1)).2.index.get? (key 1)).any (fun entry =>
        decide (entry.time < ((keeping.run [.ingest ⟨1, "s1"⟩ (record 2 0 (.int 50))]).ingest
          ⟨1, "s1"⟩ (timeless 1 1)).2.floor)) = true := by decide +kernel
  rcases hingest : (keeping.run [.ingest ⟨1, "s1"⟩ (record 2 0 (.int 50))]).ingest ⟨1, "s1"⟩
    (timeless 1 1) with ⟨result, after⟩
  rw [hingest] at hresult hstale
  subst hresult
  obtain ⟨entry, hget, hbelow⟩ := (Option.any_eq_true _ _).1 hstale
  exact h keeping _ _ _ _ _ (by decide +kernel) rfl hingest nofun entry hget
    (of_decide_eq_true hbelow)

end PartitionKeys
