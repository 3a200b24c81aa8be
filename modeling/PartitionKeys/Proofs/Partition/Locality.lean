/-
# Calls touch the keys that they mention

An operation on segments mentions the keys of the records of its segments, and taking in a record
mentions its key.  Offers, roll-backs and removals go to these keys alone, so that whatever becomes
of a call, the entries of all other keys are as before.
-/
import PartitionKeys.Proofs.Partition.Failure
import PartitionKeys.Proofs.Partition.Run

namespace PartitionKeys

/-- The segments that an operation names. -/
def SegmentChange.segments : SegmentChange → List Segment
  | .add segment | .remove segment => [segment]
  | .replace old new => [old, new]

lemma SegmentChange.target_mem_segments (change : SegmentChange) :
    change.target ∈ change.segments := by
  cases change <;> simp [target, segments]

lemma Segment.read_ofRecords (id : SegmentId) (kind : SegmentKind) (records : List Record)
    (request : ReadRequest) : (Segment.ofRecords id kind records).read request = .ok records :=
  collect_map_ok records

lemma Segment.eq_of_read_ofRecords {id : SegmentId} {kind : SegmentKind}
    {records found : List Record} {request : ReadRequest}
    (h : (Segment.ofRecords id kind records).read request = .ok found) : found = records :=
  Except.ok.inj (h.symm.trans (read_ofRecords ..))

/-- The keys that a call mentions to those who read by a request: those of the records of its
segments, as far as these can be read, or that of a single record. -/
inductive Call.Mentions (request : ReadRequest) : Call → PrimaryKey → Prop
  | listed {change : SegmentChange} {segment : Segment} {records : List Record} {record : Record}
    (named : segment ∈ change.segments) (hread : segment.read request = .ok records)
    (hmem : record ∈ records) : Mentions request (.change change) record.key
  | single (segment : SegmentId) (record : Record) :
    Mentions request (.ingest segment record) record.key

/-- Whether a call brings records in or takes them out. -/
def Call.IsUpdate : Call → Prop
  | .change _ | .ingest _ _ => True
  | .sweep | .stop | .close => False

lemma Call.IsUpdate.ne_stop {call : Call} (h : call.IsUpdate) : call ≠ .stop := by
  rintro rfl
  exact h

lemma Call.IsUpdate.ne_close {call : Call} (h : call.IsUpdate) : call ≠ .close := by
  rintro rfl
  exact h

/-! ## Keys that are left alone -/

lemma Pass.get?_run_of_ne {o : Offering} {records : List Record} {pass : Pass} {key : IndexKey}
    (apart : ∀ record ∈ records, o.key record ≠ key) :
    (run o records pass).2.index.get? key = pass.index.get? key := by
  refine run_induction o (motive := fun records pass result =>
    (∀ record ∈ records, o.key record ≠ key) → result.2.index.get? key = pass.index.get? key)
    ?_ ?_ ?_ records pass apart
  · exact fun _ _ => rfl
  · intro record rest pass e next htook _
    cases htook with
    | refused _ _ entries => exact congrFun entries key
  · intro record rest pass next htook ih apart
    refine (ih fun other hmem => apart other (List.mem_cons_of_mem _ hmem)).trans ?_
    cases htook with
    | rejected _ _ entries => exact congrFun entries key
    | written _ _ _ _ _ entries =>
      rw [entries, Function.update_of_ne (apart record List.mem_cons_self).symm]

lemma KeyIndex.get?_removeOwned_of_ne {i : KeyIndex} {hash : KeyHash} {segment : SegmentId}
    {records : List Record} {key : IndexKey}
    (apart : ∀ record ∈ records, hash.apply record.key ≠ key) :
    (i.removeOwned hash segment records).2.get? key = i.get? key := by
  refine Option.ext fun entry => ?_
  rw [get?_removeOwned]
  refine and_iff_left ?_
  rintro ⟨-, record, hmem, hkey, -⟩
  exact apart record hmem hkey

namespace Partition

lemma readRequest_call (p : Partition) (call : Call) :
    (p.call call).readRequest = p.readRequest := by
  rw [readRequest, readRequest, call_settings]

variable {p : Partition} {key : IndexKey}

lemma get?_perform_of_ne {change : SegmentChange}
    (apart : ∀ k, (Call.change change).Mentions p.readRequest k → p.keyOf k ≠ key) :
    (p.perform change).2.index.get? key = p.index.get? key := by
  have hread {segment : Segment} {records : List Record} (named : segment ∈ change.segments)
      (hrecords : p.readAll segment = .ok records) :
      ∀ record ∈ records, p.settings.hash.apply record.key ≠ key :=
    fun record hmem => apart _ (.listed named (read_of_readAll hrecords) hmem)
  have hperformed := p.perform_performed change
  generalize (p.perform change).1 = result at hperformed
  generalize (p.perform change).2.index = index at hperformed ⊢
  generalize (p.perform change).2.log = log at hperformed
  cases hperformed with
  | unread => rfl
  | removed segment records hchange hrecords =>
    subst hchange
    exact KeyIndex.get?_removeOwned_of_ne (hread List.mem_cons_self hrecords)
  | refused e pass hpass => exact congrFun (rollBack_pass? hpass).2 key
  | added segment records pass hchange hrecords hrun =>
    subst hchange
    have hpass : (Pass.run (p.offering (.add segment) none) records
        { index := p.index }).2.index.get? key = p.index.get? key :=
      Pass.get?_run_of_ne (hread List.mem_cons_self hrecords)
    rwa [hrun] at hpass
  | replaced old new dropped records pass hchange hrecords hdropped hrun =>
    subst hchange
    have hpass : (Pass.run (p.offering (.replace old new) (some (old.id, dropped))) records
        { index := p.index }).2.index.get? key = p.index.get? key :=
      Pass.get?_run_of_ne (hread (List.mem_cons_of_mem _ List.mem_cons_self) hrecords)
    rw [hrun] at hpass
    exact (KeyIndex.get?_removeOwned_of_ne (hread List.mem_cons_self hdropped)).trans hpass

/-- A call touches the keys that it mentions and no others. -/
lemma get?_call_of_ne {call : Call} (hupdate : call.IsUpdate)
    (apart : ∀ k, call.Mentions p.readRequest k → p.keyOf k ≠ key) :
    (p.call call).index.get? key = p.index.get? key := by
  cases call with
  | change change =>
    rcases p.change_index change with heq | ⟨watermark, gate, heq⟩
    · exact congrArg (fun i => i.get? key) heq
    · rw [Partition.call, heq]
      exact get?_perform_of_ne (p := { p with watermark, gate }) apart
  | ingest segment record =>
    have hingested := p.ingest_ingested segment record
    have hoffer (watermark : Watermark) :
        (p.applyRecord watermark segment record).2.get? key = p.index.get? key := by
      have hoffered := p.index.apply_offered (p.keyOf record.key) (p.recordEntry segment record)
        ({ p with watermark }.terms .perColumn none)
      unfold applyRecord
      generalize (p.index.apply _ _ _).1 = answer at hoffered
      generalize (p.index.apply _ _ _).2.get? = entries at hoffered ⊢
      cases hoffered with
      | refused | rejected => rfl
      | written => exact Function.update_of_ne (apart _ (.single segment record)).symm ..
    rw [Partition.call]
    generalize (p.ingest segment record).1 = result at hingested
    generalize (p.ingest segment record).2.index = index at hingested ⊢
    cases hingested with
    | skipped => rfl
    | refused watermark => exact hoffer watermark
    | indexed watermark => exact hoffer watermark
  | sweep | stop | close => exact hupdate.elim

end Partition

end PartitionKeys
