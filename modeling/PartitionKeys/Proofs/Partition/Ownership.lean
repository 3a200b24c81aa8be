/-
# Who owns the entries of a partition

Suppose that each segment stands for one fixed list of records, its listing.  Then in every
run each entry that points into a segment is held under the key of a record of its listing,
at the position of the entry: insertions put it there, and neither a version that was merged
nor an entry that was put back moves it.  So the records of a segment lead to all its
entries, and when a segment is removed or replaced none of them is left.
-/
import PartitionKeys.Proofs.Partition.Run
import PartitionKeys.Proofs.Partition.Failure
import Mathlib.Data.Set.Card

namespace PartitionKeys

/-! ## Counting the entries of a segment -/

namespace KeyIndex

/-- The keys whose entries point into a segment. -/
def keysIn (i : KeyIndex) (segment : SegmentId) : Set IndexKey :=
  {key | ∃ entry, i.get? key = some entry ∧ entry.location.isIn segment = true}

lemma finite_keysIn (i : KeyIndex) (segment : SegmentId) : (i.keysIn segment).Finite := by
  refine i.keys.finite_toSet.subset ?_
  rintro key ⟨entry, hget, -⟩
  exact mem_keys_iff.2 (by rw [hget]; rfl)

/-- A removal of one key counts the key that it takes away. -/
lemma remove_fst_add_ncard (i : KeyIndex) (key : IndexKey) (segment : SegmentId) (doc : UInt32) :
    (i.remove key ⟨segment, doc⟩).1.toNat +
        ((i.remove key ⟨segment, doc⟩).2.keysIn segment).ncard =
      (i.keysIn segment).ncard := by
  rw [remove_fst]
  have hget := i.get?_remove key ⟨segment, doc⟩
  cases hpoints : i.pointsAt key ⟨segment, doc⟩ with
  | false =>
    rw [hpoints] at hget
    have hsame : (i.remove key ⟨segment, doc⟩).2.keysIn segment = i.keysIn segment := by
      simp [keysIn, hget]
    rw [hsame, Bool.toNat_false, Nat.zero_add]
  | true =>
    rw [hpoints] at hget
    obtain ⟨held, hheld, hsame⟩ := pointsAt_iff.1 hpoints
    have hmem : key ∈ i.keysIn segment := ⟨held, hheld, (Location.same_iff.1 hsame).2⟩
    have hdiff : (i.remove key ⟨segment, doc⟩).2.keysIn segment = i.keysIn segment \ {key} := by
      ext other
      simp only [keysIn, hget, if_true, Set.mem_sdiff, Set.mem_ofPred_eq, Set.mem_singleton_iff]
      by_cases hother : other = key
      · subst hother
        simp
      · simp [hother]
    rw [hdiff, Bool.toNat_true, Nat.add_comm]
    exact Set.ncard_sdiff_singleton_add_one hmem (i.finite_keysIn segment)

/-- Dropping the records of a segment counts the keys that it takes away from the segment. -/
lemma removeOwned_fst_add_ncard (hash : KeyHash) (segment : SegmentId) (records : List Record)
    (i : KeyIndex) :
    (i.removeOwned hash segment records).1 +
        ((i.removeOwned hash segment records).2.keysIn segment).ncard =
      (i.keysIn segment).ncard := by
  induction records generalizing i with
  | nil => exact Nat.zero_add _
  | cons record rest ih =>
    have hone := i.remove_fst_add_ncard (hash.apply record.key) segment record.doc
    have hrest := ih (i.remove (hash.apply record.key) ⟨segment, record.doc⟩).2
    rw [← hone, ← hrest]
    simp only [removeOwned]
    omega

end KeyIndex

/-! ## Listings -/

/-- Whether the records of a segment, if they can be read, are those of its listing. -/
def Segment.Follows (listing : Nat → List Record) (segment : Segment) : Prop :=
  ∀ request records, segment.read request = .ok records → records = listing segment.id.number

lemma Segment.follows_ofRecords (listing : Nat → List Record) (id : SegmentId)
    (kind : SegmentKind) :
    (Segment.ofRecords id kind (listing id.number)).Follows listing := by
  intro request records h
  have hread : (Segment.ofRecords id kind (listing id.number)).read request =
      Segment.collect ((listing id.number).map .ok) := rfl
  rw [hread, Segment.collect_map_ok] at h
  cases h
  rfl

/-- Whether all segments of an operation follow their listings. -/
def SegmentChange.Follows (listing : Nat → List Record) : SegmentChange → Prop
  | .add segment | .remove segment => segment.Follows listing
  | .replace old new => old.Follows listing ∧ new.Follows listing

/-- Whether a call follows the listings; a record that is taken in alone must be listed with
its key and its position. -/
def Call.Follows (listing : Nat → List Record) : Call → Prop
  | .change operation => operation.Follows listing
  | .ingest segment record =>
    ∃ listed ∈ listing segment.number, listed.key = record.key ∧ listed.doc = record.doc
  | _ => True

/-- Whether each entry is held under the key of a listed record of its segment, at the
position of the entry. -/
def Owned (hash : KeyHash) (listing : Nat → List Record) (entries : IndexKey → Option Entry) :
    Prop :=
  ∀ key entry, entries key = some entry →
    Covered hash (listing entry.location.segment.number) key entry

section Owned

variable {hash : KeyHash} {listing : Nat → List Record} {before after : IndexKey → Option Entry}

lemma Owned.mono (h : Owned hash listing before)
    (hsub : ∀ key entry, after key = some entry → before key = some entry) :
    Owned hash listing after :=
  fun key entry hget => h key entry (hsub key entry hget)

lemma Owned.update (h : Owned hash listing before) {key : IndexKey} {entry : Entry}
    (hcovered : Covered hash (listing entry.location.segment.number) key entry) :
    Owned hash listing (Function.update before key (some entry)) := by
  intro other found hget
  by_cases hkey : other = key
  · subst hkey
    rw [Function.update_self] at hget
    cases hget
    exact hcovered
  · rw [Function.update_of_ne hkey] at hget
    exact h other found hget

/-- A pass over listed records keeps entries owned, wherever it stops. -/
lemma Owned.passRun {o : Offering} {records : List Record} {pass : Pass}
    (h : Owned o.hash listing pass.index.get?)
    (listed : ∀ record ∈ records, record ∈ listing o.segment.number) :
    Owned o.hash listing (Pass.run o records pass).2.index.get? := by
  refine Pass.run_induction o (motive := fun records pass result =>
    (∀ record ∈ records, record ∈ listing o.segment.number) →
    Owned o.hash listing pass.index.get? → Owned o.hash listing result.2.index.get?)
    ?_ ?_ ?_ records pass listed h
  · exact fun _ _ h => h
  · intro record rest pass e next htook _ h
    cases htook with
    | refused _ _ entries =>
      rw [entries]
      exact h
  · intro record rest pass next htook ih listed h
    refine ih (fun other hmem => listed other (List.mem_cons_of_mem _ hmem)) ?_
    cases htook with
    | rejected _ _ entries =>
      rw [entries]
      exact h
    | written _ r entry resolution held entries =>
      rw [entries]
      have hlocation : entry.location = o.location record := resolve_location resolution held
      refine h.update ⟨record, ?_, rfl, ?_⟩
      · rw [hlocation]
        exact listed record List.mem_cons_self
      · rw [hlocation]
        rfl

lemma Owned.of_run {o : Offering} {records : List Record} {i : KeyIndex}
    {result : Option IndexError × Pass}
    (hrun : Pass.run o records { index := i } = result)
    (listed : records = listing o.segment.number) (h : Owned o.hash listing i.get?) :
    Owned o.hash listing result.2.index.get? := by
  subst hrun listed
  exact Owned.passRun h fun _ hmem => hmem

/-- Once the listed records of a segment are dropped, no entry points into the segment. -/
lemma Owned.removeOwned {i : KeyIndex} (h : Owned hash listing i.get?) (segment : SegmentId)
    (key : IndexKey) (entry : Entry) :
    (i.removeOwned hash segment (listing segment.number)).2.get? key = some entry ↔
      i.get? key = some entry ∧ entry.location.isIn segment = false := by
  rw [KeyIndex.get?_removeOwned]
  refine and_congr_right fun hget => ?_
  constructor
  · intro hnot
    by_contra hin
    rw [Bool.not_eq_false] at hin
    have hcovered := h key entry hget
    rw [show entry.location.segment.number = segment.number by
      simpa [Location.isIn, SegmentId.same] using hin] at hcovered
    exact hnot ⟨hin, hcovered⟩
  · rintro hout ⟨hin, -⟩
    rw [hout] at hin
    cases hin

end Owned

namespace Partition

variable {listing : Nat → List Record} {p : Partition}

lemma listed_of_readAll {segment : Segment} (follows : segment.Follows listing)
    {records : List Record} (h : p.readAll segment = .ok records) :
    records = listing segment.id.number :=
  follows _ _ (read_of_readAll h)

/-! ## Every call keeps entries owned -/

lemma perform_owned {change : SegmentChange} (follows : change.Follows listing)
    (h : Owned p.settings.hash listing p.index.get?) :
    Owned p.settings.hash listing (p.perform change).2.index.get? := by
  have hperformed := p.perform_performed change
  generalize (p.perform change).1 = result at hperformed
  generalize (p.perform change).2.index = index at hperformed ⊢
  generalize (p.perform change).2.log = log at hperformed
  cases hperformed with
  | unread => exact h
  | removed segment records hchange hread =>
    subst hchange
    rw [listed_of_readAll follows hread]
    exact h.mono fun key entry hget => ((h.removeOwned segment.id key entry).1 hget).1
  | refused e pass hpass =>
    rw [(rollBack_pass? hpass).2]
    exact h
  | added segment records pass hchange hread hrun =>
    subst hchange
    exact Owned.of_run hrun (listed_of_readAll follows hread) h
  | replaced old new dropped records pass hchange hread hold hrun =>
    subst hchange
    -- the pass is over the listing of the new segment, and dropping the old one moves nothing
    have hpass := Owned.of_run hrun (listed_of_readAll follows.2 hread) h
    rw [listed_of_readAll follows.1 hold]
    exact hpass.mono fun key entry hget => ((hpass.removeOwned old.id key entry).1 hget).1

lemma change_owned {change : SegmentChange} (follows : change.Follows listing)
    (h : Owned p.settings.hash listing p.index.get?) :
    Owned p.settings.hash listing (p.change change).2.index.get? := by
  rcases p.change_index change with heq | ⟨watermark, gate, heq⟩
  · rw [heq]
    exact h
  · rw [heq]
    exact perform_owned (p := { p with watermark, gate }) follows h

lemma applyRecord_owned {watermark : Watermark} {segment : SegmentId} {record : Record}
    (follows : (Call.ingest segment record).Follows listing)
    (h : Owned p.settings.hash listing p.index.get?) :
    Owned p.settings.hash listing (p.applyRecord watermark segment record).2.get? := by
  have hoffered := p.index.apply_offered (p.keyOf record.key) (p.recordEntry segment record)
    ({ p with watermark }.terms .perColumn none)
  unfold applyRecord
  generalize (p.index.apply _ _ _).1 = answer at hoffered
  generalize (p.index.apply _ _ _).2.get? = entries at hoffered ⊢
  cases hoffered with
  | refused => exact h
  | rejected => exact h
  | written r entry resolution held =>
    obtain ⟨listed, hmem, hkey, hdoc⟩ := follows
    have hlocation : entry.location = ⟨segment, record.doc⟩ := resolve_location resolution held
    refine h.update ⟨listed, ?_, ?_, ?_⟩
    · rw [hlocation]
      exact hmem
    · rw [hkey]
      rfl
    · rw [hlocation]
      exact hdoc

lemma ingest_owned {segment : SegmentId} {record : Record}
    (follows : (Call.ingest segment record).Follows listing)
    (h : Owned p.settings.hash listing p.index.get?) :
    Owned p.settings.hash listing (p.ingest segment record).2.index.get? := by
  have hingested := p.ingest_ingested segment record
  generalize (p.ingest segment record).1 = result at hingested
  generalize (p.ingest segment record).2.index = index at hingested ⊢
  cases hingested with
  | skipped => exact h
  | refused => exact applyRecord_owned follows h
  | indexed => exact applyRecord_owned follows h

lemma sweep_owned (hwell : p.index.WellFormed) (h : Owned p.settings.hash listing p.index.get?) :
    Owned p.settings.hash listing p.sweep.2.index.get? := by
  rcases p.sweep_index with heq | heq
  · rw [heq]
    exact h
  · refine h.mono fun key entry hget => ?_
    rw [heq, KeyIndex.get?_sweep hwell] at hget
    exact (Option.filter_eq_some_iff.1 hget).1

lemma call_owned {call : Call} (follows : call.Follows listing) (hwell : p.index.WellFormed)
    (h : Owned p.settings.hash listing p.index.get?) :
    Owned p.settings.hash listing (p.call call).index.get? := by
  cases call with
  | change change => exact change_owned follows h
  | ingest segment record => exact ingest_owned follows h
  | sweep => exact sweep_owned hwell h
  | stop =>
    obtain ⟨_, _, hframe⟩ := p.stop_frame
    rw [Partition.call, hframe]
    exact h
  | close =>
    rw [Partition.call, get?_closeNow]
    exact h

/-- The entries are owned after every run from an empty index. -/
lemma run_owned {calls : List Call} (empty : p.index.keys = [])
    (follows : ∀ call ∈ calls, call.Follows listing) :
    Owned (p.run calls).settings.hash listing (p.run calls).index.get? := by
  have hempty : Owned p.settings.hash listing p.index.get? := by
    intro key entry hget
    rw [KeyIndex.get?_of_keys_eq_nil empty] at hget
    cases hget
  refine (run_induction (motive := fun p => p.index.WellFormed ∧
    Owned p.settings.hash listing p.index.get?) ?_
    ⟨KeyIndex.wellFormed_of_keys_eq_nil empty, hempty⟩).2
  rintro q call hmem ⟨hwell, howned⟩
  refine ⟨?_, ?_⟩
  · exact run_kept KeyIndex.wellFormed_kept q [call] hwell
  · rw [call_settings]
    exact call_owned (follows call hmem) hwell howned

/-! ## Removals and replacements -/

/-- A removal that was applied drops the listing of the segment. -/
lemma removeOwned_of_applied {segment : Segment} {counts : Counts}
    (follows : segment.Follows listing)
    (happlied : (p.change (.remove segment)).1 = .ok (.applied counts)) :
    (p.change (.remove segment)).2.index =
        (p.index.removeOwned p.settings.hash segment.id (listing segment.id.number)).2 ∧
      counts.removed =
        (p.index.removeOwned p.settings.hash segment.id (listing segment.id.number)).1 := by
  obtain ⟨watermark, gate, log, hperformed⟩ := change_applied happlied
  generalize (p.change (.remove segment)).2.index = index at hperformed ⊢
  cases hperformed with
  | removed segment' records hchange hread =>
    cases hchange
    rw [listed_of_readAll follows hread]
    exact ⟨rfl, rfl⟩
  | added _ _ _ hchange => cases hchange
  | replaced _ _ _ _ _ hchange => cases hchange

/-- A replacement that was applied drops the listing of the old segment at the end. -/
lemma removeOwned_of_replaced {old new : Segment} {counts : Counts}
    (follows : (SegmentChange.replace old new).Follows listing)
    (h : Owned p.settings.hash listing p.index.get?)
    (happlied : (p.change (.replace old new)).1 = .ok (.applied counts)) :
    ∃ i : KeyIndex, Owned p.settings.hash listing i.get? ∧
      (p.change (.replace old new)).2.index =
        (i.removeOwned p.settings.hash old.id (listing old.id.number)).2 := by
  obtain ⟨watermark, gate, log, hperformed⟩ := change_applied happlied
  generalize (p.change (.replace old new)).2.index = index at hperformed ⊢
  cases hperformed with
  | replaced old' new' dropped records pass hchange hread hold hrun =>
    cases hchange
    refine ⟨pass.index, Owned.of_run hrun (listed_of_readAll follows.2 hread) h, ?_⟩
    rw [listed_of_readAll follows.1 hold]
  | removed _ _ hchange => cases hchange
  | added _ _ _ hchange => cases hchange

/-! ## The result -/

/-- Suppose that every segment stands for one listing, and take any run from an empty index.
Then each entry is held under the key of a listed record of its segment, at the position of
the entry.  A segment that is removed has no entry any more, as many keys are reported as it
had entries, and all other entries stay; a segment that is replaced has no entry any more,
whatever replaces it. -/
theorem entries_belong_to_segments {p : Partition} (empty : p.index.keys = [])
    {calls : List Call} (follows : ∀ call ∈ calls, call.Follows listing) (q : Partition)
    (hq : q = p.run calls) :
    (∀ key entry, q.index.get? key = some entry →
      ∃ record ∈ listing entry.location.segment.number,
        q.keyOf record.key = key ∧ record.doc = entry.location.doc) ∧
    (∀ segment counts, segment.Follows listing →
      (q.change (.remove segment)).1 = .ok (.applied counts) →
      (∀ key entry, (q.change (.remove segment)).2.index.get? key = some entry →
        entry.location.isIn segment.id = false) ∧
      (∀ key entry, entry.location.isIn segment.id = false →
        ((q.change (.remove segment)).2.index.get? key = some entry ↔
          q.index.get? key = some entry)) ∧
      counts.removed = (q.index.keysIn segment.id).ncard) ∧
    ∀ old new counts, old.Follows listing → new.Follows listing →
      (q.change (.replace old new)).1 = .ok (.applied counts) →
      ∀ key entry, (q.change (.replace old new)).2.index.get? key = some entry →
        entry.location.isIn old.id = false := by
  have howned := run_owned empty follows
  rw [← hq] at howned
  refine ⟨howned, ?_, ?_⟩
  · intro segment counts hfollows happlied
    obtain ⟨hindex, hcount⟩ := removeOwned_of_applied hfollows happlied
    have hnone : (q.change (.remove segment)).2.index.keysIn segment.id = ∅ := by
      rw [hindex]
      refine Set.eq_empty_iff_forall_notMem.2 ?_
      rintro key ⟨entry, hget, hin⟩
      rw [((howned.removeOwned segment.id key entry).1 hget).2] at hin
      cases hin
    refine ⟨fun key entry hget => ?_, fun key entry hout => ?_, ?_⟩
    · rw [hindex] at hget
      exact ((howned.removeOwned segment.id key entry).1 hget).2
    · rw [hindex, howned.removeOwned]
      exact and_iff_left hout
    · have htotal := q.index.removeOwned_fst_add_ncard q.settings.hash segment.id
        (listing segment.id.number)
      rw [← hindex, hnone, Set.ncard_empty, Nat.add_zero] at htotal
      rw [hcount, htotal]
  · intro old new counts hold hnew happlied key entry hget
    obtain ⟨i, hi, hindex⟩ := removeOwned_of_replaced ⟨hold, hnew⟩ howned happlied
    rw [hindex] at hget
    exact ((hi.removeOwned old.id key entry).1 hget).2

end Partition

/-- What each segment stands for: the first one has two keys, the second one takes one over. -/
def Sample.listing : Nat → List Record
  | 1 => [record 1 0 (.int 5), record 2 1 (.int 5)]
  | 2 => [record 1 0 (.int 7)]
  | _ => []

open Sample in
/-- Two keys are added, and a record of another segment takes one of them over. -/
def takeover : List Call :=
  [.change (.add (segment 1 (listing 1))), .ingest ⟨2, "s2"⟩ (record 1 0 (.int 7)), .sweep]

open Sample in
/-- After the takeover, removing the first segment drops one key. -/
theorem entries_belong_to_segments_takeover :
    (∀ call ∈ takeover, call.Follows listing) ∧
      (((partition { backend := .unordered {} }).run takeover).index.keysIn ⟨1, "s1"⟩).ncard = 1 ∧
      ∀ key entry, (((partition { backend := .unordered {} }).run takeover).change
        (.remove (segment 1 (listing 1)))).2.index.get? key = some entry →
          entry.location.isIn ⟨1, "s1"⟩ = false := by
  have follows : ∀ call ∈ takeover, call.Follows listing := by
    intro call hmem
    simp only [takeover, List.mem_cons, List.not_mem_nil, or_false] at hmem
    rcases hmem with rfl | rfl | rfl
    · exact Segment.follows_ofRecords listing _ _
    · exact ⟨record 1 0 (.int 7), List.mem_singleton_self _, rfl, rfl⟩
    · exact trivial
  have happlied : (((partition { backend := .unordered {} }).run takeover).change
      (.remove (segment 1 (listing 1)))).1 = .ok (.applied { removed := 1 }) := rfl
  obtain ⟨hnone, -, hcount⟩ := (Partition.entries_belong_to_segments rfl follows _ rfl).2.1
    (segment 1 (listing 1)) _ (Segment.follows_ofRecords listing _ _) happlied
  exact ⟨follows, hcount.symm, hnone⟩

end PartitionKeys
