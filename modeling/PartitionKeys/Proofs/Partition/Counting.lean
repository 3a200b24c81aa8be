/-
# The counts of an operation account for every record

A pass counts each record once, by what became of it.  Without retention no entry is stale, so a
record is inserted exactly if its key was absent: as many keys are new after the pass as were
counted, however often a key is repeated in the segment.  Dropping the old segment counts the
keys that it takes away.  Together the counts tell how the number of keys has changed, and which
sets of keys the numbers stand for, `counts_account_for_records`.
-/
import PartitionKeys.Proofs.Partition.Origin
import PartitionKeys.Proofs.Partition.Ownership
import PartitionKeys.Proofs.Partition.Replacement

namespace PartitionKeys

namespace KeyIndex

/-! ## The keys that an index holds -/

/-- The keys that have an entry. -/
def heldKeys (i : KeyIndex) : Set IndexKey := {key | (i.get? key).isSome}

lemma finite_heldKeys (i : KeyIndex) : i.heldKeys.Finite :=
  i.keys.finite_toSet.subset fun _ => mem_keys_iff.2

lemma WellFormed.nodup_keys {i : KeyIndex} (h : i.WellFormed) : i.keys.Nodup := by
  obtain ⟨backend, _, _, _, _⟩ := i
  cases backend with
  | sorted i => exact SortedIndex.WellFormed.nodup h
  | unordered i => exact h

/-- Of further keys, those come in that are absent. -/
lemma ncard_heldKeys_union (i : KeyIndex) {keys : Set IndexKey} (h : keys.Finite) :
    (i.heldKeys ∪ keys).ncard =
      i.heldKeys.ncard + {key | i.get? key = none ∧ key ∈ keys}.ncard := by
  have hunion : i.heldKeys ∪ keys = i.heldKeys ∪ {key | i.get? key = none ∧ key ∈ keys} := by
    ext key
    simp only [heldKeys, Set.mem_union, Set.mem_ofPred_eq]
    cases i.get? key <;> simp
  rw [hunion]
  refine Set.ncard_union_eq ?_ i.finite_heldKeys (h.subset fun _ hkey => hkey.2)
  refine Set.disjoint_left.2 fun key hheld habsent => ?_
  rw [heldKeys, Set.mem_ofPred_eq, habsent.1] at hheld
  cases hheld

lemma length_keys (i : KeyIndex) : i.keys.length = i.size := by
  obtain ⟨backend, _, _, _, _⟩ := i
  cases backend <;> exact List.length_map _

/-- The size of an index is the number of keys that have an entry. -/
lemma WellFormed.ncard_heldKeys {i : KeyIndex} (h : i.WellFormed) : i.heldKeys.ncard = i.size := by
  have hkeys : i.heldKeys = ↑i.keys.toFinset := by
    ext key
    rw [Finset.mem_coe, List.mem_toFinset, mem_keys_iff]
    rfl
  rw [hkeys, Set.ncard_coe_finset, List.toFinset_card_of_nodup h.nodup_keys, length_keys]

/-- Indexes with the same entries have the same size. -/
lemma WellFormed.size_eq_of_get?_eq {i j : KeyIndex} (hi : i.WellFormed) (hj : j.WellFormed)
    (h : i.get? = j.get?) : j.size = i.size := by
  rw [← hi.ncard_heldKeys, ← hj.ncard_heldKeys, heldKeys, heldKeys, h]

/-! ## Dropping what a segment still has -/

/-- The keys whose entries are in a segment and are stood for by one of the records. -/
def coveredKeys (i : KeyIndex) (hash : KeyHash) (segment : SegmentId) (records : List Record) :
    Set IndexKey :=
  {key | ∃ entry, i.get? key = some entry ∧ entry.location.isIn segment = true ∧
    Covered hash records key entry}

variable (i : KeyIndex) (hash : KeyHash) (segment : SegmentId) (records : List Record)

open Classical in
/-- Dropping takes away the entries of these keys. -/
lemma get?_removeOwned_eq_ite (key : IndexKey) :
    (i.removeOwned hash segment records).2.get? key =
      if key ∈ i.coveredKeys hash segment records then none else i.get? key := by
  refine Option.ext fun entry => ?_
  rw [get?_removeOwned]
  split
  · next hkey =>
    obtain ⟨held, hheld, hcovered⟩ := hkey
    refine iff_of_false ?_ nofun
    rintro ⟨hget, hnot⟩
    rw [hheld] at hget
    cases hget
    exact hnot hcovered
  · next hkey =>
    exact and_iff_left_of_imp fun hget hcovered => hkey ⟨entry, hget, hcovered⟩

lemma heldKeys_removeOwned :
    (i.removeOwned hash segment records).2.heldKeys =
      i.heldKeys \ i.coveredKeys hash segment records := by
  ext key
  simp only [heldKeys, get?_removeOwned_eq_ite, Set.mem_sdiff, Set.mem_ofPred_eq]
  split <;> simp [*]

/-- What is counted are the keys that are taken away. -/
lemma removeOwned_fst_eq_ncard :
    (i.removeOwned hash segment records).1 = (i.coveredKeys hash segment records).ncard := by
  have hsub : i.coveredKeys hash segment records ⊆ i.keysIn segment := by
    rintro key ⟨entry, hget, hin, -⟩
    exact ⟨entry, hget, hin⟩
  have hafter : (i.removeOwned hash segment records).2.keysIn segment =
      i.keysIn segment \ i.coveredKeys hash segment records := by
    ext key
    simp only [keysIn, get?_removeOwned_eq_ite, Set.mem_sdiff, Set.mem_ofPred_eq]
    split <;> simp [*]
  have htotal := i.removeOwned_fst_add_ncard hash segment records
  have hsplit := Set.ncard_sdiff_add_ncard_of_subset hsub (i.finite_keysIn segment)
  rw [hafter] at htotal
  omega

lemma ncard_heldKeys_removeOwned :
    (i.removeOwned hash segment records).2.heldKeys.ncard +
        (i.removeOwned hash segment records).1 = i.heldKeys.ncard := by
  rw [heldKeys_removeOwned, removeOwned_fst_eq_ncard]
  refine Set.ncard_sdiff_add_ncard_of_subset ?_ i.finite_heldKeys
  rintro key ⟨entry, hget, -⟩
  exact Option.isSome_iff_exists.2 ⟨entry, hget⟩

end KeyIndex

/-! ## The counts of a pass -/

/-- The records that have been counted. -/
def Counts.total (c : Counts) : Nat := c.inserted + c.superseded + c.rejected

lemma Counts.total_record (c : Counts) (outcome : Outcome) :
    (c.record outcome).total = c.total + 1 := by
  cases outcome <;> simp only [Counts.record, Counts.total] <;> omega

lemma Counts.removed_record (c : Counts) (outcome : Outcome) :
    (c.record outcome).removed = c.removed := by
  cases outcome <;> rfl

namespace Pass

variable {o : Offering} {records : List Record} {pass : Pass}

/-- A pass that is accepted counts each record once, and no key as removed. -/
lemma total_run (accepted : (run o records pass).1 = none) :
    (run o records pass).2.counts.total = pass.counts.total + records.length ∧
      (run o records pass).2.counts.removed = pass.counts.removed := by
  refine run_induction o (motive := fun records pass result => result.1 = none →
    result.2.counts.total = pass.counts.total + records.length ∧
      result.2.counts.removed = pass.counts.removed) ?_ ?_ ?_ records pass accepted
  · exact fun _ _ => ⟨rfl, rfl⟩
  · exact fun _ _ _ _ _ _ haccepted => nomatch haccepted
  · intro record rest pass next htook ih haccepted
    obtain ⟨htotal, hremoved⟩ := ih haccepted
    have hcounted : ∃ outcome, next.counts = pass.counts.record outcome := by
      cases htook with
      | rejected _ _ _ _ counts => exact ⟨_, counts⟩
      | written _ _ _ _ _ _ _ counts => exact ⟨_, counts⟩
    obtain ⟨outcome, hcounts⟩ := hcounted
    rw [hcounts, Counts.total_record] at htotal
    rw [hcounts, Counts.removed_record] at hremoved
    refine ⟨?_, hremoved⟩
    rw [htotal, List.length_cons]
    omega

/-- Without a floor, a record that is accepted is inserted if its key is absent, and its key is
there afterwards. -/
lemma Took.heldKeys {record : Record} {next : Pass} (htook : Took o record pass (none, next))
    (lasting : o.terms.floor = none) :
    next.index.heldKeys = insert (o.key record) pass.index.heldKeys ∧
      pass.counts.inserted + next.index.heldKeys.ncard =
        next.counts.inserted + pass.index.heldKeys.ncard := by
  have hlive : ∀ entry, o.terms.isStale entry = false := fun entry => by
    rw [Terms.isStale, lasting]
  cases htook with
  | rejected _ resolution entries _ counts =>
    have hsame : next.index.heldKeys = pass.index.heldKeys := by
      rw [KeyIndex.heldKeys, KeyIndex.heldKeys, entries]
    obtain ⟨held, hheld, -⟩ := not_owned_of_reject resolution
    have hmem : o.key record ∈ pass.index.heldKeys := Option.isSome_iff_exists.2 ⟨held, hheld⟩
    refine ⟨by rw [hsame, Set.insert_eq_of_mem hmem], ?_⟩
    rw [hsame, counts]
    rfl
  | written _ r entry resolution held entries _ counts =>
    have hinsert : next.index.heldKeys = insert (o.key record) pass.index.heldKeys := by
      ext key
      by_cases hkey : key = o.key record
      · subst hkey
        simp [KeyIndex.heldKeys, entries]
      · simp [KeyIndex.heldKeys, entries, hkey]
    refine ⟨hinsert, ?_⟩
    rw [hinsert, counts]
    -- what was there before tells whether the record counts as inserted
    cases resolve_resolved resolution with
    | inserted free =>
      have habsent : o.key record ∉ pass.index.heldKeys := by
        intro hmem
        obtain ⟨present, hpresent⟩ := Option.isSome_iff_exists.1 hmem
        exact absurd (free present hpresent) (by simp [hlive])
      rw [Set.ncard_insert_of_notMem habsent pass.index.finite_heldKeys]
      simp only [Resolution.outcome, Counts.record]
      omega
    | tookOver present hpresent | won present _ hpresent =>
      have hmem : o.key record ∈ pass.index.heldKeys :=
        Option.isSome_iff_exists.2 ⟨present, hpresent⟩
      rw [Set.insert_eq_of_mem hmem]
      rfl
    | kept => cases held

/-- Without a floor, a pass that is accepted leaves the keys from before and those of its
records, and has counted as inserted how many have come in. -/
lemma heldKeys_run (lasting : o.terms.floor = none) (accepted : (run o records pass).1 = none) :
    (run o records pass).2.index.heldKeys =
        pass.index.heldKeys ∪ {key | ∃ record ∈ records, o.key record = key} ∧
      pass.counts.inserted + (run o records pass).2.index.heldKeys.ncard =
        (run o records pass).2.counts.inserted + pass.index.heldKeys.ncard := by
  refine run_induction o (motive := fun records pass result => result.1 = none →
    result.2.index.heldKeys =
        pass.index.heldKeys ∪ {key | ∃ record ∈ records, o.key record = key} ∧
      pass.counts.inserted + result.2.index.heldKeys.ncard =
        result.2.counts.inserted + pass.index.heldKeys.ncard) ?_ ?_ ?_ records pass accepted
  · exact fun _ _ => ⟨by simp, rfl⟩
  · exact fun _ _ _ _ _ _ haccepted => nomatch haccepted
  · intro record rest pass next htook ih haccepted
    obtain ⟨hkeys, hcount⟩ := ih haccepted
    obtain ⟨hone, hcountOne⟩ := htook.heldKeys lasting
    refine ⟨?_, by omega⟩
    rw [hkeys, hone]
    ext key
    simp [eq_comm, or_assoc, or_left_comm]

end Pass

namespace Partition

/-! ## Operations that bring records in -/

/-- Dropping what a replaced segment still has, if a segment is replaced. -/
def dropOld (p : Partition) (old : Option (SegmentId × List Record)) (i : KeyIndex) :
    Nat × KeyIndex :=
  match old with
  | none => (0, i)
  | some (segment, records) => i.removeOwned p.settings.hash segment records

/-- The keys that a replaced segment still has: they are in the segment, at the position of a
record of their key. -/
def leftOver (p : Partition) (old : Option (SegmentId × List Record)) (i : KeyIndex) :
    Set IndexKey :=
  match old with
  | none => ∅
  | some (segment, records) => i.coveredKeys p.settings.hash segment records

lemma dropOld_fst_eq_ncard (p : Partition) (old : Option (SegmentId × List Record))
    (i : KeyIndex) : (p.dropOld old i).1 = (p.leftOver old i).ncard := by
  cases old with
  | none => exact (Set.ncard_empty IndexKey).symm
  | some old => exact i.removeOwned_fst_eq_ncard p.settings.hash old.1 old.2

lemma ncard_heldKeys_dropOld (p : Partition) (old : Option (SegmentId × List Record))
    (i : KeyIndex) :
    (p.dropOld old i).2.heldKeys.ncard + (p.dropOld old i).1 = i.heldKeys.ncard := by
  cases old with
  | none => rfl
  | some old => exact i.ncard_heldKeys_removeOwned p.settings.hash old.1 old.2

/-- An operation that has brought records in has offered them all, and then dropped what the old
segment still had. -/
lemma accepted_of_applied {p : Partition} {change : SegmentChange} {counts : Counts}
    (brings : change.bringsRecords = true)
    (applied : (p.change change).1 = .ok (.applied counts)) :
    ∃ q records old pass, p.start change = (none, q) ∧ q.readAll change.target = .ok records ∧
      q.readOld change.old? = .ok old ∧
      Pass.run (q.offering change old) records { index := p.index } = (none, pass) ∧
      counts.total = records.length ∧ counts.inserted = pass.counts.inserted ∧
      counts.removed = (p.dropOld old pass.index).1 ∧
      (p.change change).2.index = (p.dropOld old pass.index).2 := by
  obtain ⟨q, hstart, hperformed⟩ := performed_of_applied applied
  obtain ⟨watermark, gate, -, rfl⟩ := start_none hstart
  generalize (p.change change).2.index = index at hperformed ⊢
  generalize (perform { p with watermark, gate } change).2.log = log at hperformed
  cases hperformed with
  | removed segment _ hchange =>
    subst hchange
    cases brings
  | added segment records pass hchange hread hrun =>
    subst hchange
    -- nothing is dropped, and a pass counts nothing as removed
    obtain ⟨htotal, hremoved⟩ := Pass.total_run (congrArg Prod.fst hrun)
    rw [hrun] at htotal hremoved
    exact ⟨_, records, none, pass, hstart, hread, rfl, hrun, htotal.trans (Nat.zero_add _), rfl,
      hremoved, rfl⟩
  | replaced old new dropped records pass hchange hread hold hrun =>
    subst hchange
    have htotal := (Pass.total_run (congrArg Prod.fst hrun)).1
    rw [hrun] at htotal
    exact ⟨_, records, some (old.id, dropped), pass, hstart, hread, readOld_ok hold, hrun,
      htotal.trans (Nat.zero_add _), rfl, rfl, rfl⟩

/-- Take an addition or a replacement that is applied after any run from an empty index.  Each
record of the new segment is counted once.  The number of removed keys is that of the keys which
the old segment still has once all records have been offered.  Without retention the number of
keys grows by the inserted ones and shrinks by the removed ones, and the number of inserted ones
is that of the keys of the new segment which were absent before. -/
theorem counts_account_for_records {p q : Partition} (empty : p.index.keys = [])
    {calls : List Call} (hq : q = p.run calls) {change : SegmentChange} {counts : Counts}
    (brings : change.bringsRecords = true)
    (applied : (q.change change).1 = .ok (.applied counts)) :
    ∃ r records old pass, q.start change = (none, r) ∧ r.readAll change.target = .ok records ∧
      r.readOld change.old? = .ok old ∧
      Pass.run (r.offering change old) records { index := q.index } = (none, pass) ∧
      counts.inserted + counts.superseded + counts.rejected = records.length ∧
      counts.removed = (q.leftOver old pass.index).ncard ∧
      (q.settings.ttlEnabled = false →
        (q.change change).2.size + counts.removed = q.size + counts.inserted ∧
        counts.inserted = {key | q.index.get? key = none ∧
          ∃ record ∈ records, q.keyOf record.key = key}.ncard) := by
  have hwell : q.index.WellFormed := hq ▸ wellFormed_run empty calls
  have hwellAfter := change_keptInUse KeyIndex.wellFormed_kept.inUse q change hwell
  obtain ⟨r, records, old, pass, hstart, hread, hold, hrun, htotal, hinserted, hremoved, hindex⟩ :=
    accepted_of_applied brings applied
  refine ⟨r, records, old, pass, hstart, hread, hold, hrun, htotal,
    hremoved.trans (q.dropOld_fst_eq_ncard old pass.index), fun lasting => ?_⟩
  obtain ⟨watermark, gate, -, rfl⟩ := start_none hstart
  obtain ⟨hkeys, hcount⟩ := Pass.heldKeys_run
    (floor_terms (p := { q with watermark, gate }) lasting) (congrArg Prod.fst hrun)
  rw [hrun] at hkeys hcount
  -- the keys after the pass are those from before and, apart from them, the new ones
  have hpass : pass.index.heldKeys.ncard = q.index.heldKeys.ncard +
      {key | q.index.get? key = none ∧ ∃ record ∈ records, q.keyOf record.key = key}.ncard :=
    (congrArg Set.ncard hkeys).trans
      (q.index.ncard_heldKeys_union
        (records.finite_toSet.image fun record : Record => q.keyOf record.key))
  have hdropped := q.ncard_heldKeys_dropOld old pass.index
  rw [← hindex, ← hremoved, hwellAfter.ncard_heldKeys] at hdropped
  rw [hwell.ncard_heldKeys] at hpass hcount
  change 0 + pass.index.heldKeys.ncard = pass.counts.inserted + q.index.size at hcount
  change (q.change change).2.index.size + _ = q.index.size + _ ∧ _
  omega

end Partition

/-- Three records: one of them takes key 1 over, and of the two of key 3 the first one stays. -/
def Sample.mixed : List Record :=
  [record 1 0 (.int 7), record 3 1 (.int 5), record 3 2 (.int 4)]

open Sample in
/-- The three records replace a segment with the keys 1 and 2.  One is inserted, since key 3 was
absent before, and one key is removed, since key 2 is all that the old segment still has; so there
are as many keys as before. -/
theorem counts_account_for_records_takeover :
    (filled.change (.replace (segment 1 (listing 1)) (segment 2 mixed))).1 =
        .ok (.applied { inserted := 1, superseded := 1, rejected := 1, removed := 1 }) ∧
      (filled.change (.replace (segment 1 (listing 1)) (segment 2 mixed))).2.size + 1 =
        filled.size + 1 ∧
      1 = {key | filled.index.get? key = none ∧
        ∃ record ∈ mixed, filled.keyOf record.key = key}.ncard ∧
      ∃ r pass, filled.start (.replace (segment 1 (listing 1)) (segment 2 mixed)) = (none, r) ∧
        Pass.run (r.offering (.replace (segment 1 (listing 1)) (segment 2 mixed))
          (some (⟨1, "s1"⟩, listing 1))) mixed { index := filled.index } = (none, pass) ∧
        1 = (filled.leftOver (some (⟨1, "s1"⟩, listing 1)) pass.index).ncard := by
  have happlied : (filled.change (.replace (segment 1 (listing 1)) (segment 2 mixed))).1 =
      .ok (.applied { inserted := 1, superseded := 1, rejected := 1, removed := 1 }) := rfl
  have hfilled : filled = (partition { backend := .sorted {} }).run
      [.change (.add (segment 1 (listing 1)))] := rfl
  obtain ⟨r, records, old, pass, hstart, hread, hold, hrun, -, hremoved, hgrowth⟩ :=
    Partition.counts_account_for_records rfl hfilled rfl happlied
  obtain rfl : mixed = records := Except.ok.inj hread
  obtain rfl : some (⟨1, "s1"⟩, listing 1) = old := Except.ok.inj hold
  have hlasting : filled.settings.ttlEnabled = false := by decide
  exact ⟨happlied, (hgrowth hlasting).1, (hgrowth hlasting).2, r, pass, hstart, hrun, hremoved⟩

end PartitionKeys
