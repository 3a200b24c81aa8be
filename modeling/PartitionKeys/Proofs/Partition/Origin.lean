/-
# Where the entries of a partition come from

An entry is written by one call and then stays as it is: nothing else changes its version or its
time.  A segment that is added writes the entries of its own records.  A single record writes
its own entry too, or, where it wins against a record that is held, the join of the two
versions.  So each entry of a run leads back to the call that wrote it, and its time is that of
its version, `written_of_run` and `time_of_run`.
-/
import PartitionKeys.Proofs.Partition.Failure
import PartitionKeys.Proofs.Partition.Run
import Mathlib.Data.List.Induction

namespace PartitionKeys

/-! ## What an offer writes -/

/-- What a record of a sealed segment writes is its own entry. -/
lemma eq_of_resolve_sealed {present : Option Entry} {location : Location} {version : Version}
    {entry : Entry} {t : Terms} {r : Resolution} (hrule : t.rule = .sealed)
    (h : resolve present (.of location version t.timeColumn) t = .ok r)
    (hr : r.entry? = some entry) : entry = .of location version t.timeColumn := by
  cases resolve_resolved h with
  | inserted | tookOver =>
    cases hr
    rfl
  | kept => cases hr
  | won held winner _ _ _ _ hdecide =>
    cases hr
    rw [hrule] at hdecide
    obtain ⟨order, -, hdecide⟩ := bind_eq_ok hdecide
    split at hdecide <;> cases hdecide
    rfl

/-- The time of a join is that of the proposed version, or the one that the stored version
counts for. -/
lemma Entry.timeOf_join {proposed stored joined : Version}
    (h : proposed.join stored = .ok joined) (timeColumn : Option String) :
    (∃ time, timeColumn.bind proposed.time? = some time ∧ Entry.timeOf joined timeColumn = time) ∨
      Entry.timeOf joined timeColumn = Entry.timeOf stored timeColumn := by
  cases timeColumn with
  | none => exact .inr rfl
  | some column =>
    rcases Version.time?_join h column with ⟨time, hproposed, hjoined⟩ | hjoined
    · exact .inl ⟨time, hproposed, by simp [timeOf, hjoined]⟩
    · exact .inr (by simp [timeOf, hjoined])

/-- After a pass over sealed records an entry is one from before, or the own entry of one of the
records. -/
lemma Pass.written_of_run {o : Offering} (hrule : o.terms.rule = .sealed) {key : IndexKey}
    {entry : Entry} {records : List Record} {pass : Pass}
    (hget : (Pass.run o records pass).2.index.get? key = some entry) :
    pass.index.get? key = some entry ∨
      ∃ record ∈ records, o.key record = key ∧ (o.entry record).2 = entry := by
  refine Pass.run_induction o (motive := fun records pass result =>
    result.2.index.get? key = some entry → pass.index.get? key = some entry ∨
      ∃ record ∈ records, o.key record = key ∧ (o.entry record).2 = entry)
    ?_ ?_ ?_ records pass hget
  · exact fun _ hget => .inl hget
  · intro record rest pass e next htook hget
    cases htook with
    | refused _ _ entries => exact .inl (entries ▸ hget)
  · intro record rest pass next htook ih hget
    rcases ih hget with hget | ⟨other, hmem, hother⟩
    · cases htook with
      | rejected _ _ entries => exact .inl (entries ▸ hget)
      | written _ r written resolution held entries =>
        rw [entries] at hget
        by_cases hkey : key = o.key record
        · subst hkey
          rw [Function.update_self] at hget
          cases hget
          have hown := eq_of_resolve_sealed hrule resolution held
          exact .inr ⟨record, List.mem_cons_self, rfl, hown.symm⟩
        · rw [Function.update_of_ne hkey] at hget
          exact .inl hget
    · exact .inr ⟨other, List.mem_cons_of_mem _ hmem, hother⟩

namespace Partition

/-! ## What a call writes -/

/-- A call that succeeds brings a record in under a segment. -/
inductive Accepts (p : Partition) : Call → SegmentId → Record → Prop
  | added (segment : Segment) {counts : Counts} {records : List Record} {record : Record}
    (applied : (p.change (.add segment)).1 = .ok (.applied counts))
    (hread : segment.read p.readRequest = .ok records) (hmem : record ∈ records) :
    Accepts p (.change (.add segment)) segment.id record
  | replaced (old segment : Segment) {counts : Counts} {records : List Record} {record : Record}
    (applied : (p.change (.replace old segment)).1 = .ok (.applied counts))
    (hread : segment.read p.readRequest = .ok records) (hmem : record ∈ records) :
    Accepts p (.change (.replace old segment)) segment.id record
  | ingested (segment : SegmentId) (record : Record) {outcome : Outcome}
    (indexed : (p.ingest segment record).1 = .ok (.indexed outcome))
    (accepted : outcome ≠ .rejected) : Accepts p (.ingest segment record) segment record

/-- A call that is made to a partition writes an entry under a key. -/
inductive Writes (p : Partition) (call : Call) : IndexKey → Entry → Prop
  | own (segment : SegmentId) (record : Record) (accepts : p.Accepts call segment record) :
    Writes p call (p.keyOf record.key) (p.recordEntry segment record)
  /-- A single record wins against the one that is held, and the two versions are joined. -/
  | joined (segment : SegmentId) (record : Record) (held : Entry) (version : Version)
    (hcall : call = .ingest segment record)
    (superseded : (p.ingest segment record).1 = .ok (.indexed .superseded))
    (hheld : p.index.get? (p.keyOf record.key) = some held)
    (hkind : p.settings.kind = .upsert) (hjoin : record.version.join held.version = .ok version) :
    Writes p call (p.keyOf record.key)
      (.of ⟨segment, record.doc⟩ version p.settings.timeColumn)

variable {p : Partition} {key : IndexKey} {entry : Entry}

/-- The records of a new segment write their own entries, until one of them is refused. -/
lemma written_of_pass {change : SegmentChange} {old : Option (SegmentId × List Record)}
    {records : List Record} {result : Option IndexError × Pass}
    (hrun : Pass.run (p.offering change old) records { index := p.index } = result)
    (hget : result.2.index.get? key = some entry) :
    p.index.get? key = some entry ∨ ∃ record ∈ records,
      p.keyOf record.key = key ∧ p.recordEntry change.target.id record = entry := by
  subst hrun
  exact Pass.written_of_run rfl hget

/-- After an operation an entry is one from before, or the own entry of a record that the
operation has accepted. -/
lemma change_writes {change : SegmentChange}
    (hget : (p.change change).2.index.get? key = some entry) :
    p.index.get? key = some entry ∨ p.Writes (.change change) key entry := by
  rcases p.change_perform change with heq | ⟨watermark, gate, wrap, hresult, heq⟩
  · exact .inl (heq ▸ hget)
  rw [heq] at hget
  have hperformed := perform_performed { p with watermark, gate } change
  generalize (perform { p with watermark, gate } change).1 = result at hresult hperformed
  generalize (perform { p with watermark, gate } change).2.index = index at hget hperformed
  generalize (perform { p with watermark, gate } change).2.log = log at hperformed
  -- neither the watermark nor the gate has a part in what is written
  cases hperformed with
  | unread => exact .inl hget
  | removed => exact .inl ((KeyIndex.get?_removeOwned _ _ _ _ _ _).1 hget).1
  | refused e pass hpass => exact .inl ((rollBack_pass? hpass).2 ▸ hget)
  | added segment records pass hchange hread hrun =>
    subst hchange
    rcases written_of_pass hrun hget with hget | ⟨record, hmem, rfl, rfl⟩
    · exact .inl hget
    · exact .inr (.own _ record (.added segment hresult (read_of_readAll hread) hmem))
  | replaced old new dropped records pass hchange hread _ hrun =>
    subst hchange
    rcases written_of_pass hrun ((KeyIndex.get?_removeOwned _ _ _ _ _ _).1 hget).1
      with hget | ⟨record, hmem, rfl, rfl⟩
    · exact .inl hget
    · exact .inr (.own _ record (.replaced old new hresult (read_of_readAll hread) hmem))

lemma applyRecord_writes {watermark : Watermark} {segment : SegmentId} {record : Record}
    (hresult : ∀ update, (p.applyRecord watermark segment record).1 = .ok update →
      (p.ingest segment record).1 = .ok (.indexed update.outcome))
    (hget : (p.applyRecord watermark segment record).2.get? key = some entry) :
    p.index.get? key = some entry ∨ p.Writes (.ingest segment record) key entry := by
  have hoffered := p.index.apply_offered (p.keyOf record.key) (p.recordEntry segment record)
    ({ p with watermark }.terms .perColumn none)
  unfold applyRecord at hresult hget
  generalize (p.index.apply _ _ _).1 = answer at hoffered hresult
  generalize (p.index.apply _ _ _).2.get? = entries at hoffered hget
  cases hoffered with
  | refused => exact .inl hget
  | rejected => exact .inl hget
  | written r written resolution hwritten =>
    by_cases hkey : key = p.keyOf record.key
    · subst hkey
      rw [Function.update_self] at hget
      cases hget
      right
      cases resolve_resolved resolution with
      | inserted =>
        cases hwritten
        exact .own segment record (.ingested segment record (hresult _ rfl) nofun)
      -- a single record replaces no segment
      | tookOver held _ _ owned => cases owned
      | kept => cases hwritten
      | won held version hheld _ _ hkind hdecide =>
        cases hwritten
        exact .joined segment record held version rfl (hresult _ rfl) hheld hkind
          (Version.join_of_decide hdecide)
    · rw [Function.update_of_ne hkey] at hget
      exact .inl hget

lemma ingest_writes {segment : SegmentId} {record : Record}
    (hget : (p.ingest segment record).2.index.get? key = some entry) :
    p.index.get? key = some entry ∨ p.Writes (.ingest segment record) key entry := by
  have hingested := p.ingest_ingested segment record
  generalize hresult : (p.ingest segment record).1 = result at hingested
  generalize (p.ingest segment record).2.index = index at hingested hget
  cases hingested with
  | skipped => exact .inl hget
  | refused watermark e h =>
    exact applyRecord_writes (fun update happly => nomatch h.symm.trans happly) hget
  | indexed watermark update h =>
    refine applyRecord_writes (fun other happly => ?_) hget
    rw [hresult, Except.ok.inj (h.symm.trans happly)]

/-- After a call an entry is one from before, or the call has written it. -/
lemma call_writes {call : Call} (hwell : p.index.WellFormed)
    (hget : (p.call call).index.get? key = some entry) :
    p.index.get? key = some entry ∨ p.Writes call key entry := by
  cases call with
  | change change => exact change_writes hget
  | ingest segment record => exact ingest_writes hget
  | sweep =>
    rw [Partition.call] at hget
    rcases p.sweep_index with heq | heq
    · exact .inl (heq ▸ hget)
    · rw [heq, KeyIndex.get?_sweep hwell] at hget
      exact .inl (Option.filter_eq_some_iff.1 hget).1
  | stop =>
    obtain ⟨_, _, hframe⟩ := p.stop_frame
    rw [Partition.call, hframe] at hget
    exact .inl hget
  | close =>
    rw [Partition.call, get?_closeNow] at hget
    exact .inl hget

/-! ## Runs -/

lemma wellFormed_run (empty : p.index.keys = []) (calls : List Call) :
    (p.run calls).index.WellFormed :=
  run_kept KeyIndex.wellFormed_kept p calls (KeyIndex.wellFormed_of_keys_eq_nil empty)

/-- Some call of a run has written an entry under a key. -/
def WrittenIn (p : Partition) (calls : List Call) (key : IndexKey) (entry : Entry) : Prop :=
  ∃ before call after, calls = before ++ call :: after ∧ (p.run before).Writes call key entry

lemma WrittenIn.concat {calls : List Call} (h : p.WrittenIn calls key entry) (call : Call) :
    p.WrittenIn (calls ++ [call]) key entry := by
  obtain ⟨before, writer, after, rfl, hwrites⟩ := h
  exact ⟨before, writer, after ++ [call], by simp, hwrites⟩

/-- Each entry of a run from an empty index has been written by one of the calls. -/
theorem written_of_run (empty : p.index.keys = []) {calls : List Call}
    (hget : (p.run calls).index.get? key = some entry) : p.WrittenIn calls key entry := by
  -- from the end, since the entry is what the last call has left
  induction calls using List.reverseRecOn with
  | nil =>
    change p.index.get? key = some entry at hget
    rw [KeyIndex.get?_of_keys_eq_nil empty key] at hget
    cases hget
  | append_singleton calls call ih =>
    rw [run_concat] at hget
    rcases call_writes (wellFormed_run empty calls) hget with hget | hwrites
    · exact (ih hget).concat call
    · exact ⟨calls, call, [], rfl, hwrites⟩

/-- The time of an entry is that of its version. -/
lemma time_of_run (empty : p.index.keys = []) {calls : List Call}
    (hget : (p.run calls).index.get? key = some entry) :
    entry.time = Entry.timeOf entry.version p.settings.timeColumn := by
  obtain ⟨before, call, after, -, hwrites⟩ := written_of_run empty hget
  rw [← p.run_settings before]
  cases hwrites <;> rfl

end Partition

end PartitionKeys
