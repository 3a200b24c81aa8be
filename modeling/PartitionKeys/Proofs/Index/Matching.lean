/-
# Indexes that match on some keys

An offer, an undone write and a removal look at the entry of one key and at nothing else, but for
the failures of the index.  So two indexes that hold the same entries for some primary keys, and
that fail in the same calls, cannot be told apart by calls for these keys, whatever else they
hold.  They may even hold the keys in different ways, whole in one and by their digests in the
other, as long as both ways tell the same primary keys apart: such indexes are `Matched`.
-/
import PartitionKeys.Proofs.Partition.Staleness

namespace PartitionKeys

/-! ## Indexes that fail alike -/

namespace KeyIndex

/-- The failure of the offer after so many further ones, if that offer is to fail. -/
def brokenIn (i : KeyIndex) (n : Nat) : Option IndexError :=
  brokenApply { i with applyCalls := i.applyCalls + n }

lemma brokenIn_apply (i : KeyIndex) (key : IndexKey) (proposed : Entry) (t : Terms) (n : Nat) :
    (i.apply key proposed t).2.brokenIn n = i.brokenIn (n + 1) := by
  obtain ⟨backend, hframe⟩ := i.apply_frame key proposed t
  rw [hframe]
  simp only [brokenIn, brokenApply, Nat.add_assoc, Nat.add_comm 1 n]

lemma Reliable.brokenIn {i : KeyIndex} (h : i.Reliable) (n : Nat) : i.brokenIn n = none :=
  Reliable.brokenApply fun call hmem => Nat.lt_add_right n (h call hmem)

/-- Two indexes that are closed both or neither and fail in the same calls from now on. -/
structure FailsLike (i j : KeyIndex) : Prop where
  closed : j.isClosed = i.isClosed
  applies : ∀ n, j.brokenIn n = i.brokenIn n
  failingCloses : j.failingCloses = i.failingCloses
  closeCalls : j.closeCalls = i.closeCalls

lemma Twins.failsLike {i j : KeyIndex} (h : Twins i j) : FailsLike i j := by
  have hclosed := h.closed
  obtain ⟨backend, rfl⟩ := h.failures
  exact ⟨hclosed, fun _ => rfl, rfl, rfl⟩

namespace FailsLike

variable {i j k : KeyIndex}

lemma symm (h : FailsLike i j) : FailsLike j i :=
  ⟨h.closed.symm, fun n => (h.applies n).symm, h.failingCloses.symm, h.closeCalls.symm⟩

lemma trans (hij : FailsLike i j) (hjk : FailsLike j k) : FailsLike i k :=
  ⟨hjk.closed.trans hij.closed, fun n => (hjk.applies n).trans (hij.applies n),
    hjk.failingCloses.trans hij.failingCloses, hjk.closeCalls.trans hij.closeCalls⟩

/-- Calls that leave the failures alone leave indexes alike. -/
lemma of_twins (h : FailsLike i j) {i' j' : KeyIndex} (hi : Twins i i') (hj : Twins j j') :
    FailsLike i' j' :=
  hi.failsLike.symm.trans (h.trans hj.failsLike)

lemma brokenApply (h : FailsLike i j) : j.brokenApply = i.brokenApply := h.applies 0

/-- What is offered, and for which key, does not matter for later failures. -/
lemma apply (h : FailsLike i j) (key other : IndexKey) (proposed : Entry) (t : Terms) :
    FailsLike (i.apply key proposed t).2 (j.apply other proposed t).2 := by
  have hi := (i.apply_verdict key proposed t).2.2
  have hj := (j.apply_verdict other proposed t).2.2
  refine ⟨by rw [hi, hj, h.closed], fun n => ?_, ?_, ?_⟩
  · rw [brokenIn_apply, brokenIn_apply, h.applies]
  · obtain ⟨_, hiframe⟩ := i.apply_frame key proposed t
    obtain ⟨_, hjframe⟩ := j.apply_frame other proposed t
    rw [hiframe, hjframe]
    exact h.failingCloses
  · obtain ⟨_, hiframe⟩ := i.apply_frame key proposed t
    obtain ⟨_, hjframe⟩ := j.apply_frame other proposed t
    rw [hiframe, hjframe]
    exact h.closeCalls

/-- Both indexes can be closed, or neither. -/
lemma close (h : FailsLike i j) : j.close.1 = i.close.1 ∧ FailsLike i.close.2 j.close.2 := by
  have happlies := h.applies
  unfold KeyIndex.close
  dsimp only
  rw [h.closeCalls, h.failingCloses]
  split
  · exact ⟨rfl, h.closed, happlies, rfl, rfl⟩
  · refine ⟨rfl, ?_, happlies, rfl, rfl⟩
    obtain ⟨before, _, _, _, _⟩ := i
    obtain ⟨after, _, _, _, _⟩ := j
    cases before <;> cases after <;> rfl

end FailsLike

end KeyIndex

/-! ## Indexes that match -/

/-- Two ways to hold keys that tell the same keys of a set apart. -/
def KeyHash.Alike (hash other : KeyHash) (keys : Set PrimaryKey) : Prop :=
  ∀ a ∈ keys, ∀ b ∈ keys, other.apply a = other.apply b ↔ hash.apply a = hash.apply b

/-- Two indexes that hold the same entries for some keys, each in its own way, and that fail
alike. -/
structure KeyIndex.Matched (hash other : KeyHash) (keys : Set PrimaryKey) (i j : KeyIndex) :
    Prop where
  entries : ∀ key ∈ keys, j.get? (other.apply key) = i.get? (hash.apply key)
  failsLike : FailsLike i j

namespace KeyIndex.Matched

variable {hash other : KeyHash} {keys : Set PrimaryKey} {i j : KeyIndex}

/-- Calls that leave all entries and the failures alone leave indexes matched. -/
lemma of_get? (h : Matched hash other keys i j) {i' j' : KeyIndex} (hi : i'.get? = i.get?)
    (hj : j'.get? = j.get?) (failsLike : FailsLike i' j') : Matched hash other keys i' j' := by
  refine ⟨fun key hkey => ?_, failsLike⟩
  rw [hi, hj]
  exact h.entries key hkey

/-- Indexes stay matched when one key gets the same entry in both, or loses it. -/
lemma of_update (h : Matched hash other keys i j) (alike : hash.Alike other keys)
    {key : PrimaryKey} (hkey : key ∈ keys) {present : Option Entry} {i' j' : KeyIndex}
    (hi : i'.get? = Function.update i.get? (hash.apply key) present)
    (hj : j'.get? = Function.update j.get? (other.apply key) present)
    (failsLike : FailsLike i' j') : Matched hash other keys i' j' := by
  refine ⟨fun a ha => ?_, failsLike⟩
  rw [hi, hj, Function.update_apply, Function.update_apply]
  by_cases hsame : hash.apply a = hash.apply key
  · rw [if_pos hsame, if_pos ((alike a ha key hkey).2 hsame)]
  · rw [if_neg hsame, if_neg (hsame ∘ (alike a ha key hkey).1)]
    exact h.entries a ha

lemma verdict_eq (h : Matched hash other keys i j) {key : PrimaryKey} (hkey : key ∈ keys)
    (proposed : Entry) (t : Terms) :
    j.verdict (other.apply key) proposed t = i.verdict (hash.apply key) proposed t := by
  rw [KeyIndex.verdict, KeyIndex.verdict, h.failsLike.brokenApply, h.failsLike.closed,
    h.entries key hkey]

lemma apply (h : Matched hash other keys i j) (alike : hash.Alike other keys)
    {key : PrimaryKey} (hkey : key ∈ keys) (proposed : Entry) (t : Terms) :
    (j.apply (other.apply key) proposed t).1 = (i.apply (hash.apply key) proposed t).1 ∧
      Matched hash other keys (i.apply (hash.apply key) proposed t).2
        (j.apply (other.apply key) proposed t).2 := by
  obtain ⟨hi, hientries, -⟩ := i.apply_verdict (hash.apply key) proposed t
  obtain ⟨hj, hjentries, -⟩ := j.apply_verdict (other.apply key) proposed t
  have hfails := h.failsLike.apply (hash.apply key) (other.apply key) proposed t
  -- both come to one verdict, and what it writes is written in both
  rw [h.verdict_eq hkey] at hj hjentries
  refine ⟨by rw [hi, hj, h.entries key hkey], ?_⟩
  unfold written at hientries hjentries
  cases hentry : (i.verdict (hash.apply key) proposed t).toOption.bind Resolution.entry? with
  | none =>
    rw [hentry] at hientries hjentries
    exact h.of_get? hientries hjentries hfails
  | some entry =>
    rw [hentry] at hientries hjentries
    exact h.of_update alike hkey hientries hjentries hfails

lemma remove (h : Matched hash other keys i j) (alike : hash.Alike other keys)
    {key : PrimaryKey} (hkey : key ∈ keys) (expected : Location) :
    (j.remove (other.apply key) expected).1 = (i.remove (hash.apply key) expected).1 ∧
      Matched hash other keys (i.remove (hash.apply key) expected).2
        (j.remove (other.apply key) expected).2 := by
  have hpoints : j.pointsAt (other.apply key) expected = i.pointsAt (hash.apply key) expected := by
    rw [pointsAt, pointsAt, h.entries key hkey]
  have hfails := h.failsLike.of_twins (Twins.remove i (hash.apply key) expected)
    (Twins.remove j (other.apply key) expected)
  have hi := i.get?_remove (hash.apply key) expected
  have hj := j.get?_remove (other.apply key) expected
  rw [hpoints] at hj
  refine ⟨by rw [remove_fst, remove_fst, hpoints], ?_⟩
  split at hi
  · next hat =>
    rw [if_pos hat] at hj
    exact h.of_update alike hkey hi hj hfails
  · next hat =>
    rw [if_neg hat] at hj
    exact h.of_get? hi hj hfails

/-- A sweep looks at entries alone, so that it drops the same keys from both. -/
lemma sweep (h : Matched hash other keys i j) (hi : i.WellFormed) (hj : j.WellFormed)
    (floor : Binary64) : Matched hash other keys (i.sweep floor).2 (j.sweep floor).2 := by
  refine ⟨fun key hkey => ?_, h.failsLike.of_twins (Twins.sweep i floor) (Twins.sweep j floor)⟩
  rw [get?_sweep hi, get?_sweep hj, h.entries key hkey]

lemma close (h : Matched hash other keys i j) :
    j.close.1 = i.close.1 ∧ Matched hash other keys i.close.2 j.close.2 := by
  obtain ⟨hresult, hfails⟩ := h.failsLike.close
  exact ⟨hresult, h.of_get? i.get?_close j.get?_close hfails⟩

/-- Dropping the records of a segment takes away as many keys from both. -/
lemma removeOwned (h : Matched hash other keys i j) (alike : hash.Alike other keys)
    (segment : SegmentId) {records : List Record}
    (hrecords : ∀ record ∈ records, record.key ∈ keys) :
    (j.removeOwned other segment records).1 = (i.removeOwned hash segment records).1 ∧
      Matched hash other keys (i.removeOwned hash segment records).2
        (j.removeOwned other segment records).2 := by
  induction records generalizing i j with
  | nil => exact ⟨rfl, h⟩
  | cons record rest ih =>
    obtain ⟨hone, hnext⟩ := h.remove alike (hrecords record List.mem_cons_self)
      ⟨segment, record.doc⟩
    obtain ⟨hcount, hlast⟩ := ih hnext fun other hmem =>
      hrecords other (List.mem_cons_of_mem _ hmem)
    refine ⟨?_, hlast⟩
    simp only [KeyIndex.removeOwned]
    rw [hone, hcount]

end KeyIndex.Matched

/-! ## Passes over indexes that match -/

/-- Two passes that have come equally far over indexes that match: each has made as many writes,
counted the same and reported the same. -/
structure Pass.Matched (hash other : KeyHash) (keys : Set PrimaryKey) (p q : Pass) : Prop where
  index : p.index.Matched hash other keys q.index
  journal : q.journal.length = p.journal.length
  counts : q.counts = p.counts
  events : q.events = p.events

namespace Pass.Matched

variable {hash other : KeyHash} {keys : Set PrimaryKey} {p q : Pass} {t : Terms}
  {segment : SegmentId}

lemma note (h : Matched hash other keys p q) (record : Record) (update : Update) :
    Matched hash other keys (p.note ⟨hash, t, segment⟩ record update)
      (q.note ⟨other, t, segment⟩ record update) := by
  have hindex : KeyIndex.Matched hash other keys (p.note ⟨hash, t, segment⟩ record update).index
      (q.note ⟨other, t, segment⟩ record update).index := by
    rw [note_index, note_index]
    exact h.index
  have hcounts : (q.note ⟨other, t, segment⟩ record update).counts =
      (p.note ⟨hash, t, segment⟩ record update).counts := by
    rw [note_counts, note_counts, h.counts]
  obtain ⟨outcome, displaced⟩ := update
  cases outcome with
  | inserted | superseded => exact ⟨hindex, congrArg Nat.succ h.journal, hcounts, h.events⟩
  | rejected =>
    refine ⟨hindex, ?_, hcounts, ?_⟩
    · cases hkind : t.kind <;> simp only [Pass.note, hkind] <;> exact h.journal
    · cases hkind : t.kind <;> simp only [Pass.note, hkind, h.events]

/-- Passes over the same records, offered on the same terms, stay together and end alike. -/
lemma run (h : Matched hash other keys p q) (alike : hash.Alike other keys) (t : Terms)
    (segment : SegmentId) {records : List Record}
    (hrecords : ∀ record ∈ records, record.key ∈ keys) :
    (Pass.run ⟨other, t, segment⟩ records q).1 = (Pass.run ⟨hash, t, segment⟩ records p).1 ∧
      Matched hash other keys (Pass.run ⟨hash, t, segment⟩ records p).2
        (Pass.run ⟨other, t, segment⟩ records q).2 := by
  induction records generalizing p q with
  | nil => exact ⟨rfl, h⟩
  | cons record rest ih =>
    obtain ⟨hanswer, hnext⟩ := h.index.apply alike (hrecords record List.mem_cons_self)
      (.of ⟨segment, record.doc⟩ record.version t.timeColumn) t
    simp only [Pass.run, Offering.entry, Offering.location]
    generalize p.index.apply (hash.apply record.key) _ t = call at hanswer hnext ⊢
    generalize q.index.apply (other.apply record.key) _ t = call' at hanswer hnext ⊢
    obtain ⟨answer, index⟩ := call
    obtain ⟨answer', index'⟩ := call'
    obtain rfl : answer' = answer := hanswer
    have hmoved : Matched hash other keys { p with index } { q with index := index' } :=
      ⟨hnext, h.journal, h.counts, h.events⟩
    cases answer' with
    | error e => exact ⟨rfl, hmoved⟩
    | ok update =>
      exact ih (hmoved.note record update) fun other hmem =>
        hrecords other (List.mem_cons_of_mem _ hmem)

end Pass.Matched

end PartitionKeys
