/-
# Finite maps as lists of pairs

A map is a list of keys with their values; of a repeated key the first pair counts.  Writing
a key takes away what was there before.
-/

namespace PartitionKeys

/-- Keys with their values. -/
abbrev Assoc (κ α : Type) := List (κ × α)

namespace Assoc

variable {κ α : Type}

/-- The keys. -/
def keys (m : Assoc κ α) : List κ := m.map Prod.fst

variable [BEq κ]

/-- Takes a key away. -/
def erase (m : Assoc κ α) (key : κ) : Assoc κ α := m.filter fun held => held.1 != key

/-- Holds a value under a key. -/
def put (m : Assoc κ α) (key : κ) (value : α) : Assoc κ α := (key, value) :: m.erase key

theorem keys_erase (m : Assoc κ α) (key : κ) :
    (m.erase key).keys = m.keys.filter fun other => other != key := by
  simp only [keys, erase, List.filter_map]
  rfl

theorem nodup_keys_erase {m : Assoc κ α} (h : m.keys.Nodup) (key : κ) :
    (m.erase key).keys.Nodup := by
  rw [keys_erase]
  exact h.filter _

variable [LawfulBEq κ]

theorem lookup_cons_of_ne {key other : κ} (h : other ≠ key) (value : α) (m : Assoc κ α) :
    List.lookup other ((key, value) :: m) = m.lookup other := by
  rw [List.lookup_cons, beq_false_of_ne h]

/-- Where no key stands twice, the pairs are those that can be looked up. -/
theorem mem_iff_lookup_eq {m : Assoc κ α} (h : m.keys.Nodup) {key : κ} {value : α} :
    (key, value) ∈ m ↔ m.lookup key = some value := by
  induction m with
  | nil => simp
  | cons held rest ih =>
    obtain ⟨other, old⟩ := held
    obtain ⟨hother, hrest⟩ := List.nodup_cons.1 h
    by_cases hkey : key = other
    · subst hkey
      have hnot : (key, value) ∉ rest := by
        intro hmem
        exact hother (List.mem_map.2 ⟨(key, value), hmem, rfl⟩)
      simp [hnot, eq_comm]
    · rw [lookup_cons_of_ne hkey, ← ih hrest]
      simp [hkey]

/-- A filter that looks at keys only leaves alone what stands under a key that it keeps. -/
theorem lookup_filter_key {f : κ → Bool} {key : κ} (h : f key = true) (m : Assoc κ α) :
    (m.filter fun held => f held.1).lookup key = m.lookup key := by
  induction m with
  | nil => rfl
  | cons held rest ih =>
    obtain ⟨other, old⟩ := held
    by_cases hkey : key = other
    · subst hkey
      simp [h]
    · rw [lookup_cons_of_ne hkey, List.filter_cons, ← ih]
      split
      · exact lookup_cons_of_ne hkey old _
      · rfl

theorem lookup_erase_self (m : Assoc κ α) (key : κ) : (m.erase key).lookup key = none := by
  induction m with
  | nil => rfl
  | cons held rest ih =>
    unfold erase at ih ⊢
    rw [List.filter_cons]
    split
    · next h => rw [lookup_cons_of_ne (Ne.symm (bne_iff_ne.1 h)), ih]
    · exact ih

theorem lookup_erase_of_ne {key other : κ} (h : other ≠ key) (m : Assoc κ α) :
    (m.erase key).lookup other = m.lookup other :=
  lookup_filter_key (f := fun held => held != key) (bne_iff_ne.2 h) m

theorem lookup_put_self (m : Assoc κ α) (key : κ) (value : α) :
    (m.put key value).lookup key = some value := List.lookup_cons_self

theorem lookup_put_of_ne {key other : κ} (h : other ≠ key) (m : Assoc κ α) (value : α) :
    (m.put key value).lookup other = m.lookup other := by
  rw [put, lookup_cons_of_ne h, lookup_erase_of_ne h]

/-- Of two values under one key the one written last is held. -/
theorem put_put (m : Assoc κ α) (key : κ) (value last : α) :
    (m.put key value).put key last = m.put key last := by
  simp [put, erase, List.filter_filter]

theorem notMem_keys_erase (m : Assoc κ α) (key : κ) : key ∉ (m.erase key).keys := by
  simp [keys_erase]

theorem nodup_keys_put {m : Assoc κ α} (h : m.keys.Nodup) (key : κ) (value : α) :
    (m.put key value).keys.Nodup := by
  refine List.nodup_cons.2 ⟨?_, nodup_keys_erase h key⟩
  exact notMem_keys_erase m key

end Assoc

end PartitionKeys
