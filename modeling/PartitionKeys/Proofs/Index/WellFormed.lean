/-
# Well-formed indexes

The keys of an index in the order of its keys ascend, and no index has a key twice.  Every
call keeps this, so that it holds throughout the life of an index; then a sweep keeps exactly
the entries that are not expired.  A property that every call of an index keeps is `Kept`, and
what is kept is kept by every operation that works through these calls; what every call but
closing keeps is `KeptInUse`.
-/
import PartitionKeys.Proofs.Index.Lookup

namespace PartitionKeys

namespace Assoc

variable {κ α : Type} [BEq κ] [LawfulBEq κ]

omit [BEq κ] [LawfulBEq κ] in
lemma keys_filter_sublist (m : Assoc κ α) (f : κ × α → Bool) :
    (keys (m.filter f)).Sublist m.keys :=
  List.filter_sublist.map Prod.fst

lemma mem_keys_iff {m : Assoc κ α} {key : κ} : key ∈ m.keys ↔ (m.lookup key).isSome := by
  induction m with
  | nil => simp [keys]
  | cons held rest ih =>
    obtain ⟨other, old⟩ := held
    by_cases hkey : key = other
    · subst hkey
      simp [keys]
    · rw [lookup_cons_of_ne hkey, ← ih]
      simp [keys, hkey]

lemma lookup_eq_none_iff {m : Assoc κ α} {key : κ} : m.lookup key = none ↔ key ∉ m.keys := by
  rw [mem_keys_iff, Option.not_isSome_iff_eq_none]

/-- Where no key stands twice, a filter decides about the entry of a key and nothing else. -/
lemma lookup_filter {m : Assoc κ α} (h : m.keys.Nodup) (f : κ × α → Bool) (key : κ) :
    (m.filter f).lookup key = (m.lookup key).filter fun value => f (key, value) := by
  induction m with
  | nil => rfl
  | cons held rest ih =>
    obtain ⟨other, old⟩ := held
    obtain ⟨hother, hrest⟩ := List.nodup_cons.1 h
    by_cases hkey : key = other
    · subst hkey
      rw [List.lookup_cons_self, List.filter_cons]
      cases hf : f (key, old) with
      | true => simp [Option.filter, hf]
      | false =>
        -- what stood under this key is gone, and there is nothing else under it
        have hnone : List.lookup key rest = none := lookup_eq_none_iff.2 hother
        simp [Option.filter, hf, ih hrest, hnone]
    · rw [lookup_cons_of_ne hkey, List.filter_cons]
      split
      · rw [lookup_cons_of_ne hkey, ih hrest]
      · exact ih hrest

end Assoc

/-! ## Entries in the order of their keys -/

namespace SortedIndex

/-- The keys ascend. -/
def WellFormed (i : SortedIndex) : Prop := i.keys.Pairwise fun a b => compare a b = .lt

lemma mem_keys_place {key other : IndexKey} {entry : Entry} {m : Assoc IndexKey Entry}
    (h : other ∈ (place key entry m).keys) : other = key ∨ other ∈ m.keys := by
  induction m with
  | nil => exact .inl (List.mem_singleton.1 h)
  | cons held rest ih =>
    obtain ⟨head, old⟩ := held
    unfold place at h
    split at h
    · exact List.mem_cons.1 h
    · exact (List.mem_cons.1 h).imp_right (List.mem_cons_of_mem _)
    · rcases List.mem_cons.1 h with rfl | h
      · exact .inr List.mem_cons_self
      · exact (ih h).imp_right (List.mem_cons_of_mem _)

lemma pairwise_keys_place {m : Assoc IndexKey Entry}
    (h : m.keys.Pairwise fun a b => compare a b = .lt) (key : IndexKey) (entry : Entry) :
    (place key entry m).keys.Pairwise fun a b => compare a b = .lt := by
  induction m with
  | nil => exact List.pairwise_singleton ..
  | cons held rest ih =>
    obtain ⟨head, old⟩ := held
    obtain ⟨hhead, hrest⟩ := List.pairwise_cons.1 h
    unfold place
    split
    · next hlt =>
      refine List.pairwise_cons.2 ⟨fun other hmem => ?_, h⟩
      rcases List.mem_cons.1 hmem with rfl | hmem
      · exact hlt
      · exact Std.TransCmp.lt_trans hlt (hhead other hmem)
    · next heq =>
      obtain rfl := Std.LawfulEqOrd.eq_of_compare heq
      exact h
    · next hgt =>
      refine List.pairwise_cons.2 ⟨fun other hmem => ?_, ih hrest⟩
      rcases mem_keys_place hmem with rfl | hmem
      · exact Std.OrientedCmp.lt_of_gt hgt
      · exact hhead other hmem

lemma WellFormed.nodup {i : SortedIndex} (h : i.WellFormed) : i.keys.Nodup := by
  refine List.Pairwise.imp (fun {a b} hlt => ?_) h
  rintro rfl
  rw [Std.ReflOrd.compare_self] at hlt
  cases hlt

lemma WellFormed.set {i : SortedIndex} (h : i.WellFormed) (key : IndexKey) (entry : Entry) :
    (i.set key entry).WellFormed :=
  pairwise_keys_place h key entry

lemma WellFormed.erase {i : SortedIndex} (h : i.WellFormed) (key : IndexKey) :
    (i.erase key).WellFormed :=
  h.sublist (Assoc.keys_filter_sublist i.entries _)

lemma WellFormed.apply {i : SortedIndex} (h : i.WellFormed) (key : IndexKey) (proposed : Entry)
    (t : Terms) : (i.apply key proposed t).2.WellFormed := by
  unfold SortedIndex.apply
  split
  · exact h
  split
  · exact h
  split
  · exact h.set ..
  · exact h

lemma WellFormed.restore {i : SortedIndex} (h : i.WellFormed) (key : IndexKey)
    (written : Location) (previous : Option Entry) :
    (i.restore key written previous).2.WellFormed := by
  unfold SortedIndex.restore
  split
  · exact h
  cases previous with
  | some entry => exact h.set ..
  | none => exact h.erase key

lemma WellFormed.remove {i : SortedIndex} (h : i.WellFormed) (key : IndexKey)
    (expected : Location) : (i.remove key expected).2.WellFormed := by
  unfold SortedIndex.remove
  split
  · split
    · exact h.erase key
    · exact h
  · exact h

lemma WellFormed.sweep {i : SortedIndex} (h : i.WellFormed) (floor : Binary64) :
    (i.sweep floor).2.WellFormed :=
  h.sublist (Assoc.keys_filter_sublist i.entries _)

lemma get?_sweep {i : SortedIndex} (h : i.WellFormed) (floor : Binary64) (key : IndexKey) :
    (i.sweep floor).2.get? key = (i.get? key).filter fun entry => decide (floor ≤ entry.time) :=
  Assoc.lookup_filter h.nodup _ key

end SortedIndex

/-! ## Entries in no particular order -/

namespace UnorderedIndex

/-- No key stands twice. -/
def WellFormed (i : UnorderedIndex) : Prop := i.keys.Nodup

lemma WellFormed.fill {i : UnorderedIndex} (h : i.WellFormed) {key : IndexKey}
    (hvacant : i.get? key = none) (entry : Entry) : (i.fill key entry).WellFormed :=
  List.nodup_cons.2 ⟨Assoc.lookup_eq_none_iff.1 hvacant, h⟩

lemma WellFormed.exchange {i : UnorderedIndex} (h : i.WellFormed) (key : IndexKey)
    (entry : Entry) : (i.exchange key entry).WellFormed := by
  unfold WellFormed
  rw [keys_exchange]
  exact h

lemma WellFormed.vacate {i : UnorderedIndex} (h : i.WellFormed) (key : IndexKey) :
    (i.vacate key).WellFormed :=
  Assoc.nodup_keys_erase h key

lemma WellFormed.apply {i : UnorderedIndex} (h : i.WellFormed) (key : IndexKey)
    (proposed : Entry) (t : Terms) : (i.apply key proposed t).2.WellFormed := by
  unfold UnorderedIndex.apply
  split
  · exact h
  cases hget : i.get? key with
  | none => exact h.fill hget proposed
  | some present =>
    dsimp only
    split
    · exact h
    · exact h
    · exact h.exchange ..
    · exact h.exchange ..

lemma WellFormed.restore {i : UnorderedIndex} (h : i.WellFormed) (key : IndexKey)
    (written : Location) (previous : Option Entry) :
    (i.restore key written previous).2.WellFormed := by
  unfold UnorderedIndex.restore
  split
  · exact h
  split
  · cases previous with
    | some entry => exact h.exchange ..
    | none => exact h.vacate key
  · exact h

lemma WellFormed.remove {i : UnorderedIndex} (h : i.WellFormed) (key : IndexKey)
    (expected : Location) : (i.remove key expected).2.WellFormed := by
  unfold UnorderedIndex.remove
  split
  · exact h.vacate key
  · exact h

lemma WellFormed.sweep {i : UnorderedIndex} (h : i.WellFormed) (floor : Binary64) :
    (i.sweep floor).2.WellFormed :=
  h.sublist (Assoc.keys_filter_sublist i.entries _)

lemma get?_sweep {i : UnorderedIndex} (h : i.WellFormed) (floor : Binary64) (key : IndexKey) :
    (i.sweep floor).2.get? key = (i.get? key).filter fun entry => decide (floor ≤ entry.time) := by
  refine (Assoc.lookup_filter h (fun held => !!decide (floor ≤ held.2.time)) key).trans ?_
  simp only [Bool.not_not]
  rfl

end UnorderedIndex

/-! ## Any index -/

namespace KeyIndex

/-- A property that no call of an index takes away. -/
structure Kept (P : KeyIndex → Prop) : Prop where
  apply : ∀ i key proposed t, P i → P (i.apply key proposed t).2
  restore : ∀ i key written previous, P i → P (i.restore key written previous).2
  remove : ∀ i key expected, P i → P (i.remove key expected).2
  sweep : ∀ i floor, P i → P (i.sweep floor).2
  close : ∀ i, P i → P i.close.2

/-- A property that no call of an index takes away, except perhaps closing it. -/
structure KeptInUse (P : KeyIndex → Prop) : Prop where
  apply : ∀ i key proposed t, P i → P (i.apply key proposed t).2
  restore : ∀ i key written previous, P i → P (i.restore key written previous).2
  remove : ∀ i key expected, P i → P (i.remove key expected).2
  sweep : ∀ i floor, P i → P (i.sweep floor).2

lemma Kept.inUse {P : KeyIndex → Prop} (kept : Kept P) : KeptInUse P :=
  ⟨kept.apply, kept.restore, kept.remove, kept.sweep⟩

/-- In the order of its keys, an index has ascending keys; in no order, different ones. -/
def WellFormed (i : KeyIndex) : Prop :=
  match i.backend with
  | .sorted i => i.WellFormed
  | .unordered i => i.WellFormed

theorem wellFormed_kept : Kept WellFormed where
  apply i key proposed t h := by
    unfold KeyIndex.apply
    dsimp only
    split
    · exact h
    obtain ⟨backend, _, _, _, _⟩ := i
    cases backend with
    | sorted i => exact SortedIndex.WellFormed.apply h key proposed t
    | unordered i => exact UnorderedIndex.WellFormed.apply h key proposed t
  restore i key written previous h := by
    obtain ⟨backend, _, _, _, _⟩ := i
    cases backend with
    | sorted i => exact SortedIndex.WellFormed.restore h key written previous
    | unordered i => exact UnorderedIndex.WellFormed.restore h key written previous
  remove i key expected h := by
    obtain ⟨backend, _, _, _, _⟩ := i
    cases backend with
    | sorted i => exact SortedIndex.WellFormed.remove h key expected
    | unordered i => exact UnorderedIndex.WellFormed.remove h key expected
  sweep i floor h := by
    obtain ⟨backend, _, _, _, _⟩ := i
    cases backend with
    | sorted i => exact SortedIndex.WellFormed.sweep h floor
    | unordered i => exact UnorderedIndex.WellFormed.sweep h floor
  close i h := by
    unfold KeyIndex.close
    dsimp only
    split
    · exact h
    · obtain ⟨backend, _, _, _, _⟩ := i
      cases backend <;> exact h

lemma wellFormed_of_keys_eq_nil {i : KeyIndex} (h : i.keys = []) : i.WellFormed := by
  obtain ⟨backend, _, _, _, _⟩ := i
  cases backend with
  | sorted i =>
    change i.keys.Pairwise _
    rw [show i.keys = [] from h]
    exact List.Pairwise.nil
  | unordered i =>
    change i.keys.Nodup
    rw [show i.keys = [] from h]
    exact List.nodup_nil

lemma mem_keys_iff {i : KeyIndex} {key : IndexKey} : key ∈ i.keys ↔ (i.get? key).isSome := by
  obtain ⟨backend, _, _, _, _⟩ := i
  cases backend <;> exact Assoc.mem_keys_iff

lemma get?_of_keys_eq_nil {i : KeyIndex} (h : i.keys = []) (key : IndexKey) :
    i.get? key = none := by
  have hnot : key ∉ i.keys := by simp [h]
  rwa [mem_keys_iff, Option.not_isSome_iff_eq_none] at hnot

/-- A sweep keeps exactly the entries that are not below the floor. -/
lemma get?_sweep {i : KeyIndex} (h : i.WellFormed) (floor : Binary64) (key : IndexKey) :
    (i.sweep floor).2.get? key = (i.get? key).filter fun entry => decide (floor ≤ entry.time) := by
  obtain ⟨backend, _, _, _, _⟩ := i
  cases backend with
  | sorted i => exact SortedIndex.get?_sweep h floor key
  | unordered i => exact UnorderedIndex.get?_sweep h floor key

lemma get?_close (i : KeyIndex) : i.close.2.get? = i.get? := by
  unfold close
  dsimp only
  split
  · rfl
  · obtain ⟨backend, _, _, _, _⟩ := i
    cases backend <;> rfl

end KeyIndex

end PartitionKeys
