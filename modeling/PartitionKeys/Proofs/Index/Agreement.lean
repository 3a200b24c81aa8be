/-
# The two ways to hold entries agree

An index in the order of its keys and an index in no order are written differently: one always
asks for a resolution and the other only at an occupied slot, one counts what a sweep drops by
a difference of lengths and the other entry by entry.  Nevertheless they cannot be told apart.
Two indexes `Agree` when they hold the same entry under each key and are closed both or
neither; then they answer every call alike and agree afterwards, so that from the empty index
on every sequence of calls gets the same answers from both.
-/
import PartitionKeys.Proofs.Index.WellFormed
import Mathlib.Data.List.Nodup

namespace PartitionKeys

namespace Assoc

variable {κ α : Type} [BEq κ] [LawfulBEq κ]

/-- Where no key stands twice, the look-ups determine the pairs up to their order. -/
lemma perm_of_lookup_eq {m n : Assoc κ α} (hm : m.keys.Nodup) (hn : n.keys.Nodup)
    (h : ∀ key, m.lookup key = n.lookup key) : m.Perm n := by
  refine (List.perm_ext_iff_of_nodup hm.of_map hn.of_map).2 ?_
  rintro ⟨key, value⟩
  rw [mem_iff_lookup_eq hm, mem_iff_lookup_eq hn, h]

end Assoc

/-! ## Calls and answers -/

/-- A call of an index. -/
inductive IndexCall where
  | apply (key : IndexKey) (proposed : Entry) (terms : Terms)
  /-- An offer of which only the outcome is wanted. -/
  | addOrUpdate (key : IndexKey) (proposed : Entry) (terms : Terms)
  | restore (key : IndexKey) (written : Location) (previous : Option Entry)
  | remove (key : IndexKey) (expected : Location)
  | sweep (floor : Binary64)
  | get (key : IndexKey)
  | size
  | isEmpty
  | close
deriving DecidableEq, Repr

/-- What an index answers to a call. -/
inductive IndexAnswer where
  | update (result : Except IndexError Update)
  | outcome (result : Except IndexError Outcome)
  | flag (value : Bool)
  | count (value : Nat)
  | entry (value : Option Entry)
  | done

namespace Backend

/-- The answer of an index to a call, and the index afterwards. -/
def answer (b : Backend) : IndexCall → IndexAnswer × Backend
  | .apply key proposed t => ((b.apply key proposed t).map .update id)
  | .addOrUpdate key proposed t =>
    (b.apply key proposed t).map (fun result => .outcome (result.map Update.outcome)) id
  | .restore key written previous => (b.restore key written previous).map .flag id
  | .remove key expected => (b.remove key expected).map .flag id
  | .sweep floor => (b.sweep floor).map .count id
  | .get key => (.entry (b.get? key), b)
  | .size => (.count b.size, b)
  | .isEmpty => (.flag (b.size == 0), b)
  | .close => (.done, b.close)

/-- The answers of an index to some calls, one after the other, and the index afterwards. -/
def run : List IndexCall → Backend → List IndexAnswer × Backend
  | [], b => ([], b)
  | call :: rest, b =>
    ((b.answer call).1 :: (run rest (b.answer call).2).1, (run rest (b.answer call).2).2)

end Backend

/-! ## What an index makes of an offer -/

/-- What an index makes of an offer, given whether it is closed and what it holds. -/
def verdict (closed : Bool) (present : Option Entry) (proposed : Entry) (t : Terms) :
    Except IndexError Resolution :=
  if closed then .error .closed else (resolve present proposed t).mapError .comparison

/-- What is answered when an offer is resolved: what was there is told if it is written over. -/
def Resolution.update (present : Option Entry) : Resolution → Update
  | .insert _ => ⟨.inserted, present⟩
  | .supersede _ => ⟨.superseded, present⟩
  | .reject => ⟨.rejected, none⟩

/-- The entries after an offer. -/
def written (before : IndexKey → Option Entry) (key : IndexKey)
    (v : Except IndexError Resolution) : IndexKey → Option Entry :=
  match v.toOption.bind Resolution.entry? with
  | some entry => Function.update before key (some entry)
  | none => before

lemma SortedIndex.apply_verdict (i : SortedIndex) (key : IndexKey) (proposed : Entry) (t : Terms) :
    (i.apply key proposed t).1 =
        (verdict i.closed (i.get? key) proposed t).map (Resolution.update (i.get? key)) ∧
      (i.apply key proposed t).2.get? =
        written i.get? key (verdict i.closed (i.get? key) proposed t) ∧
      (i.apply key proposed t).2.closed = i.closed := by
  unfold apply verdict
  split
  · exact ⟨rfl, rfl, rfl⟩
  cases resolve (i.get? key) proposed t with
  | error e => exact ⟨rfl, rfl, rfl⟩
  | ok r =>
    cases r with
    | reject => exact ⟨rfl, rfl, rfl⟩
    | insert entry => exact ⟨rfl, i.get?_set key entry, rfl⟩
    | supersede entry => exact ⟨rfl, i.get?_set key entry, rfl⟩

/-- A vacant slot and a resolution without a present entry come to the same. -/
lemma UnorderedIndex.apply_verdict (i : UnorderedIndex) (key : IndexKey) (proposed : Entry)
    (t : Terms) :
    (i.apply key proposed t).1 =
        (verdict i.closed (i.get? key) proposed t).map (Resolution.update (i.get? key)) ∧
      (i.apply key proposed t).2.get? =
        written i.get? key (verdict i.closed (i.get? key) proposed t) ∧
      (i.apply key proposed t).2.closed = i.closed := by
  unfold apply verdict
  split
  · exact ⟨rfl, rfl, rfl⟩
  cases hget : i.get? key with
  | none => exact ⟨rfl, i.get?_fill key proposed, rfl⟩
  | some present =>
    have hsome : (i.get? key).isSome := by rw [hget]; rfl
    dsimp only
    cases resolve (some present) proposed t with
    | error e => exact ⟨rfl, rfl, rfl⟩
    | ok r =>
      cases r with
      | reject => exact ⟨rfl, rfl, rfl⟩
      | insert entry => exact ⟨rfl, get?_exchange hsome entry, rfl⟩
      | supersede entry => exact ⟨rfl, get?_exchange hsome entry, rfl⟩

/-! ## Agreement -/

lemma SortedIndex.closed_restore (i : SortedIndex) (key : IndexKey) (written : Location)
    (previous : Option Entry) : (i.restore key written previous).2.closed = i.closed := by
  unfold restore
  split
  · rfl
  · cases previous <;> rfl

lemma SortedIndex.closed_remove (i : SortedIndex) (key : IndexKey) (expected : Location) :
    (i.remove key expected).2.closed = i.closed := by
  unfold remove
  cases i.get? key with
  | none => rfl
  | some entry =>
    dsimp only
    split <;> rfl

lemma UnorderedIndex.closed_restore (i : UnorderedIndex) (key : IndexKey) (written : Location)
    (previous : Option Entry) : (i.restore key written previous).2.closed = i.closed := by
  unfold restore
  cases i.get? key with
  | none => rfl
  | some present =>
    dsimp only
    split
    · cases previous <;> rfl
    · rfl

lemma UnorderedIndex.closed_remove (i : UnorderedIndex) (key : IndexKey) (expected : Location) :
    (i.remove key expected).2.closed = i.closed := by
  unfold remove
  split <;> rfl

/-- Two indexes that hold the same entries and are closed both or neither. -/
structure Agree (i : SortedIndex) (j : UnorderedIndex) : Prop where
  entries : i.get? = j.get?
  closed : i.closed = j.closed
  sorted : i.WellFormed
  unordered : j.WellFormed

namespace Agree

variable {i : SortedIndex} {j : UnorderedIndex}

lemma perm (h : Agree i j) : i.entries.Perm j.entries :=
  Assoc.perm_of_lookup_eq h.sorted.nodup h.unordered (congrFun h.entries)

lemma size_eq (h : Agree i j) : i.size = j.size := h.perm.length_eq

lemma apply (h : Agree i j) (key : IndexKey) (proposed : Entry) (t : Terms) :
    (i.apply key proposed t).1 = (j.apply key proposed t).1 ∧
      Agree (i.apply key proposed t).2 (j.apply key proposed t).2 := by
  obtain ⟨hi, hientries, hiclosed⟩ := i.apply_verdict key proposed t
  obtain ⟨hj, hjentries, hjclosed⟩ := j.apply_verdict key proposed t
  rw [h.entries, h.closed] at hi hientries
  refine ⟨by rw [hi, hj], ?_, ?_, h.sorted.apply key proposed t, h.unordered.apply key proposed t⟩
  · rw [hientries, hjentries]
  · rw [hiclosed, hjclosed, h.closed]

lemma restore (h : Agree i j) (key : IndexKey) (written : Location) (previous : Option Entry) :
    (i.restore key written previous).1 = (j.restore key written previous).1 ∧
      Agree (i.restore key written previous).2 (j.restore key written previous).2 := by
  have hget : i.get? key = j.get? key := congrFun h.entries key
  refine ⟨?_, ?_, ?_, h.sorted.restore key written previous,
    h.unordered.restore key written previous⟩
  · rw [SortedIndex.restore_fst, UnorderedIndex.restore_fst, hget]
  · rw [SortedIndex.get?_restore, UnorderedIndex.get?_restore, hget, h.entries]
  · rw [SortedIndex.closed_restore, UnorderedIndex.closed_restore, h.closed]

lemma remove (h : Agree i j) (key : IndexKey) (expected : Location) :
    (i.remove key expected).1 = (j.remove key expected).1 ∧
      Agree (i.remove key expected).2 (j.remove key expected).2 := by
  have hget : i.get? key = j.get? key := congrFun h.entries key
  refine ⟨?_, ?_, ?_, h.sorted.remove key expected, h.unordered.remove key expected⟩
  · rw [SortedIndex.remove_fst, UnorderedIndex.remove_fst, hget]
  · rw [SortedIndex.get?_remove, UnorderedIndex.get?_remove, hget, h.entries]
  · rw [SortedIndex.closed_remove, UnorderedIndex.closed_remove, h.closed]

/-- What is left of the length is what was counted. -/
lemma sweep (h : Agree i j) (floor : Binary64) :
    (i.sweep floor).1 = (j.sweep floor).1 ∧ Agree (i.sweep floor).2 (j.sweep floor).2 := by
  refine ⟨?_, ?_, h.closed, h.sorted.sweep floor, h.unordered.sweep floor⟩
  · have hsplit := i.entries.length_eq_countP_add_countP
      (fun held => decide (floor ≤ held.2.time))
    have hcount := h.perm.countP_eq fun held => !decide (floor ≤ held.2.time)
    have hnot : i.entries.countP (fun held => !decide (floor ≤ held.2.time)) =
        i.entries.countP (fun held => decide ¬decide (floor ≤ held.2.time) = true) := by
      congr 1
      funext held
      simp
    simp only [SortedIndex.sweep, UnorderedIndex.sweep, ← List.countP_eq_length_filter]
    omega
  · funext key
    rw [SortedIndex.get?_sweep h.sorted, UnorderedIndex.get?_sweep h.unordered, h.entries]

lemma close (h : Agree i j) : Agree i.close j.close :=
  ⟨h.entries, rfl, h.sorted, h.unordered⟩

end Agree

/-! ## Calls of either index -/

namespace Backend

/-- Two indexes, one held in each way, that agree. -/
inductive Alike : Backend → Backend → Prop
  | of_agree {i : SortedIndex} {j : UnorderedIndex} (h : Agree i j) :
    Alike (.sorted i) (.unordered j)

lemma alike_empty : Alike (.sorted {}) (.unordered {}) :=
  .of_agree ⟨rfl, rfl, List.Pairwise.nil, List.nodup_nil⟩

namespace Alike

variable {b c : Backend}

lemma get?_eq (h : Alike b c) : b.get? = c.get? := by
  cases h with
  | of_agree h => exact h.entries

lemma size_eq (h : Alike b c) : b.size = c.size := by
  cases h with
  | of_agree h => exact h.size_eq

lemma keys_perm (h : Alike b c) : b.keys.Perm c.keys := by
  cases h with
  | of_agree h => exact h.perm.map Prod.fst

/-- Indexes that agree give the same answer to a call, and agree afterwards. -/
lemma answer (h : Alike b c) (call : IndexCall) :
    (b.answer call).1 = (c.answer call).1 ∧ Alike (b.answer call).2 (c.answer call).2 := by
  obtain ⟨h⟩ := h
  cases call with
  | apply key proposed t =>
    obtain ⟨hanswer, hnext⟩ := h.apply key proposed t
    exact ⟨congrArg IndexAnswer.update hanswer, .of_agree hnext⟩
  | addOrUpdate key proposed t =>
    obtain ⟨hanswer, hnext⟩ := h.apply key proposed t
    exact ⟨congrArg (fun result : Except IndexError Update =>
      IndexAnswer.outcome (result.map Update.outcome)) hanswer, .of_agree hnext⟩
  | restore key written previous =>
    obtain ⟨hanswer, hnext⟩ := h.restore key written previous
    exact ⟨congrArg IndexAnswer.flag hanswer, .of_agree hnext⟩
  | remove key expected =>
    obtain ⟨hanswer, hnext⟩ := h.remove key expected
    exact ⟨congrArg IndexAnswer.flag hanswer, .of_agree hnext⟩
  | sweep floor =>
    obtain ⟨hanswer, hnext⟩ := h.sweep floor
    exact ⟨congrArg IndexAnswer.count hanswer, .of_agree hnext⟩
  | get key => exact ⟨congrArg IndexAnswer.entry (congrFun h.entries key), .of_agree h⟩
  | size => exact ⟨congrArg IndexAnswer.count h.size_eq, .of_agree h⟩
  | isEmpty => exact ⟨congrArg (fun n => IndexAnswer.flag (n == 0)) h.size_eq, .of_agree h⟩
  | close => exact ⟨rfl, .of_agree h.close⟩

lemma run (h : Alike b c) (calls : List IndexCall) :
    (b.run calls).1 = (c.run calls).1 ∧ Alike (b.run calls).2 (c.run calls).2 := by
  induction calls generalizing b c with
  | nil => exact ⟨rfl, h⟩
  | cons call rest ih =>
    obtain ⟨hanswer, hnext⟩ := h.answer call
    obtain ⟨hanswers, hlast⟩ := ih hnext
    refine ⟨?_, hlast⟩
    simp only [Backend.run]
    rw [hanswer, hanswers]

end Alike

/-- From the empty index on, the index in the order of its keys and the one in no order give
the same answers to every sequence of calls, and hold the same entries under the same keys
afterwards. -/
theorem backends_indistinguishable (calls : List IndexCall) :
    ((sorted {}).run calls).1 = ((unordered {}).run calls).1 ∧
      (∀ key, ((sorted {}).run calls).2.get? key = ((unordered {}).run calls).2.get? key) ∧
      ((sorted {}).run calls).2.keys.Perm ((unordered {}).run calls).2.keys := by
  obtain ⟨hanswers, hlast⟩ := alike_empty.run calls
  exact ⟨hanswers, congrFun hlast.get?_eq, hlast.keys_perm⟩

end Backend

end PartitionKeys
