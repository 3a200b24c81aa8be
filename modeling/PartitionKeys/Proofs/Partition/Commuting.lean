/-
# Calls for different keys commute

A call touches the entries of the keys that it mentions and no others, also when it fails and is
undone.  And what it reads of the index are the entries of these keys.  So where keys are kept
for ever, a call for some keys leaves a counterpart of the partition for every call that mentions
other keys: that call is answered as before and makes the same of its own keys.  Hence two calls
whose keys are held apart can be made in either order.
-/
import PartitionKeys.Proofs.Partition.Counting
import PartitionKeys.Proofs.Partition.Counterparts
import PartitionKeys.Proofs.Partition.LargestTime

namespace PartitionKeys

/-! ## What else a call leaves as it was -/

/-- An index that answers goes on failing like itself, whatever is offered, undone and removed. -/
lemma KeyIndex.keptInUse_failsLike {i : KeyIndex} (reliable : i.Reliable) :
    KeptInUse fun j => j.Reliable ∧ FailsLike i j where
  apply j key proposed t h := by
    have hreliable := keptInUse_reliable.apply j key proposed t h.1
    obtain ⟨-, -, hclosed⟩ := j.apply_verdict key proposed t
    obtain ⟨backend, hframe⟩ := j.apply_frame key proposed t
    refine ⟨hreliable, hclosed.trans h.2.closed, fun n => ?_, ?_, ?_⟩
    · rw [hreliable.brokenIn, reliable.brokenIn]
    · rw [hframe]
      exact h.2.failingCloses
    · rw [hframe]
      exact h.2.closeCalls
  restore j key written previous h :=
    ⟨h.1, h.2.trans (Twins.restore j key written previous).failsLike⟩
  remove j key expected h := ⟨h.1, h.2.trans (Twins.remove j key expected).failsLike⟩
  sweep j floor h := ⟨h.1, h.2.trans (Twins.sweep j floor).failsLike⟩

namespace Partition

variable {p : Partition}

/-- Without retention the watermark stays where it is. -/
lemma call_watermark_of_ttlDisabled (lasting : p.settings.ttlEnabled = false) {call : Call}
    (hupdate : call.IsUpdate) : (p.call call).watermark = p.watermark := by
  cases call with
  | change change =>
    have hstarted : (p.start change).2.watermark = p.watermark := by
      rcases hstart : p.start change with ⟨answer, q⟩
      cases startedTo_of_eq hstart with
      | empty | unsupported | stopped => rfl
      | ended gate result q hsealed inside check | begun gate q hsealed inside check =>
        exact ((checkedTo_of_eq check).watermark_eq hsealed).trans
          (watermarkAfter_of_ttlDisabled lasting _)
    rw [Partition.call]
    rcases hstart : p.start change with ⟨_ | result, q⟩ <;> rw [hstart] at hstarted
    · obtain ⟨_, _, _, hframe⟩ := q.perform_frame change
      rw [change_of_start_none hstart, hframe]
      exact hstarted
    · rw [change_of_start_some hstart]
      exact hstarted
  | ingest segment record =>
    rw [Partition.call]
    cases hgate : p.gate.enter? with
    | none =>
      rw [Partition.ingest, hgate]
      rfl
    | some gate =>
      obtain ⟨_, _, _, hframe⟩ := p.offerRecord_frame segment record
      rw [ingest_of_enter hgate, checkRecordTime_lasting lasting]
      dsimp only
      rw [hframe]
  | sweep | stop | close => exact hupdate.elim

lemma keyOf_call (p : Partition) (call : Call) : (p.call call).keyOf = p.keyOf := by
  funext key
  rw [keyOf, keyOf, call_settings]

/-- A call for other keys leaves a counterpart. -/
lemma counterparts_call (lasting : p.settings.ttlEnabled = false) (reliable : p.index.Reliable)
    {a b : Call} (hb : b.IsUpdate)
    (apart : ∀ k l, a.Mentions p.readRequest k → b.Mentions p.readRequest l →
      p.keyOf k ≠ p.keyOf l) :
    Counterparts {key | a.Mentions p.readRequest key} p (p.call b) := by
  have hsettings := p.call_settings b
  obtain ⟨-, hfails⟩ := call_keptInUse (KeyIndex.keptInUse_failsLike reliable) p hb.ne_close
    ⟨reliable, (KeyIndex.Twins.refl _).failsLike⟩
  refine ⟨by rw [hsettings], call_watermark_of_ttlDisabled lasting hb,
    p.call_gate hb.ne_stop hb.ne_close, ?_, ?_, hfails⟩ <;> rw [hsettings]
  · exact fun _ _ _ _ => Iff.rfl
  · intro key hkey
    exact get?_call_of_ne hb fun l hl => (apart key l hkey hl).symm

/-- What a call makes of its own keys does not depend on whether a call for other keys comes
before it or after it. -/
lemma get?_call_call_of_mentions (lasting : p.settings.ttlEnabled = false)
    (reliable : p.index.Reliable) {a b : Call} (ha : a.IsUpdate) (hb : b.IsUpdate)
    (apart : ∀ k l, a.Mentions p.readRequest k → b.Mentions p.readRequest l →
      p.keyOf k ≠ p.keyOf l) {key : PrimaryKey} (hkey : a.Mentions p.readRequest key) :
    ((p.call a).call b).index.get? (p.keyOf key) =
      ((p.call b).call a).index.get? (p.keyOf key) := by
  obtain ⟨-, hafter⟩ := (counterparts_call lasting reliable hb apart).update ha fun _ h => h
  have hentry := hafter.index.entries key hkey
  simp only [call_settings] at hentry
  refine (get?_call_of_ne hb fun l hl => ?_).trans hentry.symm
  rw [readRequest_call] at hl
  rw [keyOf_call]
  exact (apart key l hkey hl).symm

/-- A key that neither of two calls mentions is left alone by both. -/
lemma get?_call_call_of_ne {a b : Call} (ha : a.IsUpdate) (hb : b.IsUpdate) {key : IndexKey}
    (hnota : ∀ k, a.Mentions p.readRequest k → p.keyOf k ≠ key)
    (hnotb : ∀ k, b.Mentions p.readRequest k → p.keyOf k ≠ key) :
    ((p.call a).call b).index.get? key = p.index.get? key := by
  refine (get?_call_of_ne hb ?_).trans (get?_call_of_ne ha hnota)
  rw [keyOf_call, readRequest_call]
  exact hnotb

/-- **Calls for different keys commute.**  Take a partition whose keys are kept for ever after any
run from an empty index, and two calls, each of which adds, replaces or removes a segment or takes
in a record, such that no key that one mentions is held under a key of the other.  Whatever becomes
of them, each is answered as if it came alone, in either order, and both orders leave the same
entries under the same keys. -/
theorem disjoint_calls_commute {p q : Partition} (empty : p.index.keys = []) {calls : List Call}
    (hq : q = p.run calls) (lasting : q.settings.ttlEnabled = false)
    (reliable : q.index.Reliable) {a b : Call} (ha : a.IsUpdate) (hb : b.IsUpdate)
    (apart : ∀ k l, a.Mentions q.readRequest k → b.Mentions q.readRequest l →
      q.keyOf k ≠ q.keyOf l) :
    (q.call b).answer a = q.answer a ∧ (q.call a).answer b = q.answer b ∧
      ((q.call a).call b).index.get? = ((q.call b).call a).index.get? ∧
      ((q.call a).call b).size = ((q.call b).call a).size := by
  have apart' (k l : PrimaryKey) (hk : b.Mentions q.readRequest k)
      (hl : a.Mentions q.readRequest l) : q.keyOf k ≠ q.keyOf l := (apart l k hl hk).symm
  obtain ⟨hanswerA, -⟩ := (counterparts_call lasting reliable hb apart).update ha fun _ h => h
  obtain ⟨hanswerB, -⟩ := (counterparts_call lasting reliable ha apart').update hb fun _ h => h
  have hentries : ((q.call a).call b).index.get? = ((q.call b).call a).index.get? := by
    funext key
    -- each call is alone with its own keys, and both leave the others
    by_cases hmentionsA : ∃ k, a.Mentions q.readRequest k ∧ q.keyOf k = key
    · obtain ⟨k, hk, rfl⟩ := hmentionsA
      exact get?_call_call_of_mentions lasting reliable ha hb apart hk
    by_cases hmentionsB : ∃ k, b.Mentions q.readRequest k ∧ q.keyOf k = key
    · obtain ⟨k, hk, rfl⟩ := hmentionsB
      exact (get?_call_call_of_mentions lasting reliable hb ha apart' hk).symm
    · have hnota (k : PrimaryKey) (hk : a.Mentions q.readRequest k) : q.keyOf k ≠ key :=
        fun hkey => hmentionsA ⟨k, hk, hkey⟩
      have hnotb (k : PrimaryKey) (hk : b.Mentions q.readRequest k) : q.keyOf k ≠ key :=
        fun hkey => hmentionsB ⟨k, hk, hkey⟩
      rw [get?_call_call_of_ne ha hb hnota hnotb, get?_call_call_of_ne hb ha hnotb hnota]
  have hwell (c d : Call) : ((q.call c).call d).index.WellFormed := by
    rw [hq, ← run_concat, ← run_concat]
    exact wellFormed_run empty _
  exact ⟨hanswerA, hanswerB, hentries, ((hwell a b).size_eq_of_get?_eq (hwell b a) hentries).symm⟩

end Partition

open Sample in
/-- A replacement that is going to be refused after it has written the keys 1 and 2. -/
def Sample.tearingReplacement : Call := .change (.replace (segment 1 [record 1 0 (.int 5)]) torn)

open Sample in
/-- A record of another key. -/
def Sample.newcomer : Call := .ingest ⟨3, "s3"⟩ (record 3 0 (.int 4))

open Sample in
/-- A replacement that fails and is undone and a record of another key, in either order. -/
theorem disjoint_calls_commute_torn :
    (∃ e, started.answer tearingReplacement = .segment (.error e)) ∧
      started.answer newcomer = .record (.ok (.indexed .inserted)) ∧
      (started.call newcomer).answer tearingReplacement = started.answer tearingReplacement ∧
      (started.call tearingReplacement).answer newcomer = started.answer newcomer ∧
      ((started.call tearingReplacement).call newcomer).index.get? =
        ((started.call newcomer).call tearingReplacement).index.get? := by
  have hstarted : started = (partition { backend := .sorted {} }).run
      [.change (.add (segment 1 [record 1 0 (.int 5)]))] := rfl
  have apart : ∀ k l, tearingReplacement.Mentions started.readRequest k →
      newcomer.Mentions started.readRequest l → started.keyOf k ≠ started.keyOf l := by
    rintro k l ⟨named, hread, hmem⟩ ⟨⟩
    -- each record of the two segments has key 1 or key 2
    rcases List.mem_pair.1 named with rfl | rfl
    · obtain rfl := Segment.eq_of_read_ofRecords hread
      obtain rfl := List.mem_singleton.1 hmem
      decide
    · obtain rfl := Segment.eq_of_read_ofRecords hread
      simp only [List.mem_cons, List.not_mem_nil, or_false] at hmem
      rcases hmem with rfl | rfl | rfl | rfl <;> decide
  have reliable : started.index.Reliable :=
    fun call (hmem : call ∈ []) => absurd hmem List.not_mem_nil
  obtain ⟨hreplacement, hnewcomer, hentries, -⟩ :=
    Partition.disjoint_calls_commute rfl hstarted (by decide) reliable (a := tearingReplacement)
      (b := newcomer) trivial trivial apart
  exact ⟨⟨_, rfl⟩, rfl, hreplacement, hnewcomer, hentries⟩

end PartitionKeys
