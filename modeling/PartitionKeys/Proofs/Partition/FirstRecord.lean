/-
# The first record of a key wins in a dedup table

Without retention nothing is ever stale, so in a dedup table an offer for a key that is held is
turned away, unless the entry belongs to the segment that is being replaced.  Entries are
therefore dropped or overwritten only by the removal or the replacement of the very instance of
a segment that owns them: `Call.Drops`.  Everything else, refused passes with their roll-backs
included, leaves them as they are.
-/
import PartitionKeys.Proofs.Partition.Lifecycle

namespace PartitionKeys

/-- Whether an operation is to drop what owns an entry: it removes or replaces this instance. -/
def SegmentChange.Drops (change : SegmentChange) (entry : Entry) : Prop :=
  match change with
  | .add _ => False
  | .replace segment _ | .remove segment => entry.location.isIn segment.id = true

/-- Whether a call is such an operation. -/
def Call.Drops : Call → Entry → Prop
  | .change operation, entry => operation.Drops entry
  | _, _ => False

/-! ## Offers for a key that is held -/

lemma resolve_held {t : Terms} (dedup : t.kind = .dedup) (lasting : t.floor = none)
    {present proposed : Entry} (hother : t.ownedByReplaced present = false) :
    resolve (some present) proposed t = .ok .reject := by
  have hlive : t.isStale present = false := by simp [Terms.isStale, lasting]
  simp [resolve, resolvePresent, hlive, hother, dedup]

/-- An offer on the terms of a dedup table leaves what is held. -/
lemma Offered.held {before after : IndexKey → Option Entry} {key other : IndexKey}
    {proposed entry : Entry} {t : Terms} {answer : Except IndexError Update}
    (h : Offered before other proposed t answer after) (dedup : t.kind = .dedup)
    (lasting : t.floor = none) (hother : t.ownedByReplaced entry = false)
    (held : before key = some entry) : after key = some entry := by
  cases h with
  | refused => exact held
  | rejected => exact held
  | written r new hresolve hr =>
    by_cases hkey : key = other
    · subst hkey
      rw [held, resolve_held dedup lasting hother] at hresolve
      cases hresolve
      cases hr
    · rw [Function.update_of_ne hkey]
      exact held

/-- A pass leaves what is held, whether it is accepted or not. -/
lemma Pass.run_held {o : Offering} (dedup : o.terms.kind = .dedup)
    (lasting : o.terms.floor = none) {entry : Entry}
    (hother : o.terms.ownedByReplaced entry = false) {key : IndexKey} (records : List Record)
    (pass : Pass) (held : pass.index.get? key = some entry) :
    (Pass.run o records pass).2.index.get? key = some entry := by
  induction records generalizing pass with
  | nil => exact held
  | cons record rest ih =>
    have hnext := (pass.index.apply_offered (o.key record) (o.entry record).2 o.terms).held dedup
      lasting hother held
    simp only [Pass.run, Offering.entry_fst]
    generalize pass.index.apply (o.key record) (o.entry record).2 o.terms = call at hnext ⊢
    obtain ⟨e | update, index⟩ := call
    · exact hnext
    · refine ih _ ?_
      rw [Pass.note_index]
      exact hnext

/-- A dedup table without retention. -/
structure Settings.KeepsFirst (s : Settings) : Prop where
  dedup : s.kind = .dedup
  lasting : s.ttlEnabled = false

namespace Partition

variable {p : Partition}

/-- What an operation is not to drop does not belong to the segment that it replaces. -/
lemma ownedByReplaced_offering {change : SegmentChange} {old : Option (SegmentId × List Record)}
    (hold : p.readOld change.old? = .ok old) {entry : Entry} (hkeep : ¬change.Drops entry) :
    (p.offering change old).terms.ownedByReplaced entry = false := by
  cases change with
  | add segment | remove segment =>
    cases hold
    rfl
  | replace segment new =>
    obtain ⟨records, -, hread⟩ := bind_eq_ok hold
    cases hread
    exact (Bool.not_eq_true _).mp hkeep

/-- An operation on segments leaves an entry that it is not to drop. -/
lemma perform_held (h : p.settings.KeepsFirst) {change : SegmentChange} {key : IndexKey}
    {entry : Entry} (hkeep : ¬change.Drops entry) (held : p.index.get? key = some entry) :
    (p.perform change).2.index.get? key = some entry := by
  have hperformed := p.perform_performed change
  generalize (p.perform change).1 = result at hperformed
  generalize (p.perform change).2.index = index at hperformed ⊢
  generalize (p.perform change).2.log = log at hperformed
  have hpass {old : Option (SegmentId × List Record)} {records : List Record} {pass : Pass}
      (hold : p.readOld change.old? = .ok old)
      (hrun : Pass.run (p.offering change old) records { index := p.index } = (none, pass)) :
      pass.index.get? key = some entry := by
    have hheld := Pass.run_held (o := p.offering change old) h.dedup (floor_terms h.lasting)
      (ownedByReplaced_offering hold hkeep) records { index := p.index } held
    rwa [hrun] at hheld
  cases hperformed with
  | unread => exact held
  | removed segment records hchange =>
    subst hchange
    exact (KeyIndex.get?_removeOwned ..).2 ⟨held, fun hdrop => hkeep hdrop.1⟩
  | refused e pass hrefused =>
    obtain ⟨o, records, hrun⟩ := pass?_run hrefused
    have hback := (KeyIndex.rollBack_journal o records p.index).2
    rw [← hrun] at hback
    rw [hback]
    exact held
  | added segment records pass hchange _ hrun =>
    subst hchange
    exact hpass rfl hrun
  | replaced old new dropped records pass hchange _ hold hrun =>
    subst hchange
    exact (KeyIndex.get?_removeOwned ..).2
      ⟨hpass (readOld_ok hold) hrun, fun hdrop => hkeep hdrop.1⟩

/-- Every call leaves an entry that it is not to drop, whatever its result. -/
lemma call_held (h : p.settings.KeepsFirst) {call : Call} {key : IndexKey} {entry : Entry}
    (hkeep : ¬call.Drops entry) (held : p.index.get? key = some entry) :
    (p.call call).index.get? key = some entry := by
  cases call with
  | change change =>
    rw [Partition.call]
    rcases p.change_index change with heq | ⟨watermark, gate, heq⟩
    · rw [heq]
      exact held
    · rw [heq]
      exact perform_held (p := { p with watermark, gate }) h hkeep held
  | ingest segment record =>
    have hingested := p.ingest_ingested segment record
    change (p.ingest segment record).2.index.get? key = some entry
    generalize (p.ingest segment record).1 = result at hingested
    generalize (p.ingest segment record).2.index = index at hingested ⊢
    cases hingested with
    | skipped => exact held
    | refused watermark | indexed watermark =>
      exact (p.index.apply_offered ..).held h.dedup
        (floor_terms (p := { p with watermark }) h.lasting) rfl held
  | sweep =>
    have hskipped : p.call .sweep = p := by simp [Partition.call, sweep, h.lasting]
    rw [hskipped]
    exact held
  | stop =>
    obtain ⟨_, _, hframe⟩ := p.stop_frame
    rw [Partition.call, hframe]
    exact held
  | close =>
    rw [Partition.call, get?_closeNow]
    exact held

lemma run_held (h : p.settings.KeepsFirst) {calls : List Call} {key : IndexKey} {entry : Entry}
    (hkeep : ∀ call ∈ calls, ¬call.Drops entry) (held : p.index.get? key = some entry) :
    (p.run calls).index.get? key = some entry := by
  refine (run_induction (motive := fun q => q.settings = p.settings ∧
    q.index.get? key = some entry) ?_ ⟨rfl, held⟩).2
  rintro q call hmem ⟨hsettings, hheld⟩
  exact ⟨(q.call_settings call).trans hsettings,
    call_held (by rwa [hsettings]) (hkeep call hmem) hheld⟩

end Partition

/-! ## What is answered to an offer for a key that is held -/

/-- A dedup table that answers turns an offer for a key that is held away. -/
lemma KeyIndex.apply_held {i : KeyIndex} (hopen : i.isClosed = false)
    (hsound : i.brokenApply = none) {key : IndexKey} {proposed entry : Entry} {t : Terms}
    (dedup : t.kind = .dedup) (lasting : t.floor = none)
    (hother : t.ownedByReplaced entry = false) (held : i.get? key = some entry) :
    (i.apply key proposed t).1 = .ok ⟨.rejected, none⟩ := by
  rw [apply_of_open hopen hsound, held, resolve_held dedup lasting hother]
  rfl

namespace Partition

variable {p q : Partition}

lemma ingest_held (h : p.settings.KeepsFirst) {gate : Gate}
    (henter : p.gate.enter? = some gate) (hopen : p.index.isClosed = false)
    (hsound : p.index.brokenApply = none) {segment : SegmentId} {record : Record} {entry : Entry}
    (held : p.index.get? (p.keyOf record.key) = some entry) :
    (p.ingest segment record).1 = .ok (.indexed .rejected) := by
  have happly : (p.applyRecord p.watermark segment record).1 = .ok ⟨.rejected, none⟩ :=
    KeyIndex.apply_held hopen hsound h.dedup (floor_terms h.lasting) rfl held
  rw [(ingest_lasting h.lasting henter segment record).1, happly]
  rfl

/-- The operation, called on a partition, offers a record of its new segment to an index. -/
def Offers (p : Partition) (change : SegmentChange) (o : Offering) (record : Record)
    (i : KeyIndex) : Prop :=
  change.bringsRecords = true ∧ ∃ r old before after pass, p.start change = (none, r) ∧
    r.readAll change.target = .ok (before ++ record :: after) ∧
    r.readOld change.old? = .ok old ∧ o = r.offering change old ∧
    Pass.run o before { index := r.index } = (none, pass) ∧ i = pass.index

/-- An operation offers its records on the terms of the partition, and to an index that is open
if it was open before. -/
lemma Offers.facts {change : SegmentChange} {o : Offering} {record : Record} {i : KeyIndex}
    (h : p.Offers change o record i) (table : p.settings.KeepsFirst) :
    p.gate.stopped = false ∧ i.isClosed = p.index.isClosed ∧ o.terms.kind = .dedup ∧
      o.terms.floor = none ∧
      ∀ entry, ¬change.Drops entry → o.terms.ownedByReplaced entry = false := by
  obtain ⟨-, r, old, before, after, pass, hstart, -, hold, rfl, hrun, rfl⟩ := h
  obtain ⟨watermark, gate, henter, rfl⟩ := start_none hstart
  have hkept := (KeyIndex.keptInUse_closing p.index.closeCalls p.index.isClosed).passRun
    (offering { p with watermark, gate } change old) before { index := p.index } ⟨rfl, rfl⟩
  rw [hrun] at hkept
  refine ⟨?_, hkept.2, table.dedup, floor_terms (p := { p with watermark, gate }) table.lasting,
    fun entry hkeep => ownedByReplaced_offering hold hkeep⟩
  cases hstopped : p.gate.stopped with
  | false => rfl
  | true =>
    rw [Gate.enter?_of_stopped hstopped] at henter
    cases henter

/-- **The first record wins.**  After any calls on a dedup table without retention, whose gate
and index were open at the start:
* an entry that is held stays as it is through all further calls, with whatever results, as long
  as none of them removes or replaces the instance of a segment that owns it;
* a single record for a key that is held is turned away, if the table was not stopped and the
  index answers;
* so is every record of a segment that is added or put in place of another one, if its key is
  held when its turn comes, by an entry that does not belong to the replaced segment. -/
theorem first_record_wins (table : p.settings.KeepsFirst) (opened : p.gate = {})
    (usable : p.index.isClosed = false) {calls : List Call} (run : p.run calls = q) :
    (∀ key entry later, q.index.get? key = some entry → (∀ call ∈ later, ¬call.Drops entry) →
      (q.run later).index.get? key = some entry) ∧
    (∀ segment record entry, q.gate.stopped = false → q.index.brokenApply = none →
      q.index.get? (q.keyOf record.key) = some entry →
      (q.ingest segment record).1 = .ok (.indexed .rejected)) ∧
    (∀ change o record i entry, q.Offers change o record i → i.brokenApply = none →
      i.get? (o.key record) = some entry → ¬change.Drops entry →
      (i.apply (o.key record) (o.entry record).2 o.terms).1 = .ok ⟨.rejected, none⟩) := by
  have hstage := run_stage opened calls
  have hsettings : q.settings = p.settings := by rw [← run, run_settings]
  have table : q.settings.KeepsFirst := by rwa [hsettings]
  have hopen (hstopped : q.gate.stopped = false) : q.gate = {} ∧ q.index.isClosed = false := by
    have hnone : .stop ∉ calls := by
      intro hsome
      have hstill := hstage.stopped hsome
      rw [run, hstopped] at hstill
      cases hstill
    have hrun := run_unstopped opened hnone
    rw [run, usable] at hrun
    exact hrun
  refine ⟨fun key entry later held hkeep => run_held table hkeep held,
    fun segment record entry hstopped hsound held => ?_,
    fun change o record i entry hoffers hsound held hkeep => ?_⟩
  · obtain ⟨hgate, husable⟩ := hopen hstopped
    exact ingest_held table (enter?_of_open hgate) husable hsound held
  · obtain ⟨hstopped, hclosed, hdedup, hfloor, hother⟩ := hoffers.facts table
    exact KeyIndex.apply_held (hclosed.trans (hopen hstopped).2) hsound hdedup hfloor
      (hother entry hkeep) held

end Partition

namespace Sample

/-- A segment with one key. -/
def early : Segment := segment 1 [record 1 0 (.int 5)]

/-- The entry of this key. -/
def earlyEntry : Entry := .of ⟨early.id, 0⟩ ⟨[("at", .full (.int 5))]⟩ (some "at")

/-- A newer record of the key, and a segment that brings it. -/
def newer : Record := record 1 0 (.int 9)

def late : Segment := segment 2 [newer]

/-- A table that keeps the first record of each key for good, and has one. -/
def guarded : Partition where
  settings := { settings with kind := .dedup }
  index := { backend := .unordered ⟨[(key 1, earlyEntry)], false⟩ }
  watermark := .unset
  store := { medium := .memory {} }
  metrics := .off
  gate := {}
  log := []

end Sample

/-- A newer segment with the same key comes and goes, and single records are turned away: the
first record stays. -/
theorem first_record_wins_guarded :
    (Sample.guarded.run
      [.change (.add Sample.late), .change (.remove Sample.late), .stop]).index.get?
      (Sample.key 1) = some Sample.earlyEntry ∧
    (Sample.guarded.ingest ⟨3, "s3"⟩ Sample.newer).1 = .ok (.indexed .rejected) ∧
    ∃ o, Sample.guarded.Offers (.add Sample.late) o Sample.newer Sample.guarded.index ∧
      (Sample.guarded.index.apply (o.key Sample.newer) (o.entry Sample.newer).2 o.terms).1 =
        .ok ⟨.rejected, none⟩ := by
  have hheld : Sample.guarded.index.get? (Sample.key 1) = some Sample.earlyEntry := rfl
  have hoffers : Sample.guarded.Offers (.add Sample.late)
      (Sample.guarded.offering (.add Sample.late) none) Sample.newer Sample.guarded.index :=
    ⟨rfl, _, none, [], [], { index := _ }, rfl, rfl, rfl, rfl, rfl, rfl⟩
  obtain ⟨hentries, hingest, hoffer⟩ := Partition.first_record_wins
    ⟨rfl, rfl⟩ rfl rfl (show Sample.guarded.run [] = _ from rfl)
  refine ⟨hentries _ _ _ hheld ?_, hingest _ Sample.newer _ rfl rfl hheld, _, hoffers,
    hoffer _ _ _ _ _ hoffers rfl hheld id⟩
  intro call hmem
  rcases List.mem_cons.1 hmem with rfl | hmem
  · exact id
  rcases List.mem_cons.1 hmem with rfl | hmem
  · exact Bool.false_ne_true
  obtain rfl := List.mem_singleton.1 hmem
  exact id

end PartitionKeys
