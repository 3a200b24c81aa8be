/-
# A join never takes anything away

The join of two versions has the columns of the proposed one in their order and behind them
those that only the stored one has, so that no name is lost and none occurs twice.  In each
column it has the larger of the two values.  So the stored version has grown into the join:
each of its names is still there, and each of its values has at most been replaced by a larger
one of the same type.
-/
import PartitionKeys.Proofs.Version.Join
import PartitionKeys.Proofs.Version.Order

namespace PartitionKeys

namespace Version

/-! ## The names of a join -/

lemma get?_eq_none_iff {v : Version} {name : String} :
    v.get? name = none ↔ name ∉ v.columns.keys := by
  simp only [get?, List.lookup_eq_none_iff, Assoc.keys, List.mem_map, not_exists, not_and]
  constructor
  · rintro h column hmem rfl
    simpa using h column hmem
  · intro h column hmem
    simpa using fun heq => h column hmem (Eq.symm heq)

/-- Joining columns keeps their names and their order. -/
lemma keys_joinColumns {stored : Version} {columns joined : Assoc String Cell}
    (h : joinColumns stored columns = .ok joined) : joined.keys = columns.keys := by
  induction columns generalizing joined with
  | nil =>
    cases h
    rfl
  | cons column rest ih =>
    obtain ⟨name, own⟩ := column
    obtain ⟨cell, -, h⟩ := bind_eq_ok h
    obtain ⟨joinedRest, hrest, h⟩ := bind_eq_ok h
    cases h
    simpa [Assoc.keys] using ih hrest

/-- A join has the proposed names in their order, then those that only the stored version has. -/
lemma keys_join {proposed stored joined : Version} (h : proposed.join stored = .ok joined) :
    joined.columns.keys = proposed.columns.keys ++
      stored.columns.keys.filter fun name => (proposed.get? name).isNone := by
  obtain ⟨columns, hcolumns, h⟩ := bind_eq_ok h
  cases h
  have hkeys := keys_joinColumns hcolumns
  simp only [Assoc.keys, List.map_append, List.filter_map] at hkeys ⊢
  rw [hkeys]
  rfl

lemma mem_keys_join {proposed stored joined : Version} (h : proposed.join stored = .ok joined)
    {name : String} :
    name ∈ joined.columns.keys ↔
      name ∈ proposed.columns.keys ∨ name ∈ stored.columns.keys := by
  rw [keys_join h, List.mem_append, List.mem_filter, Option.isNone_iff_eq_none,
    get?_eq_none_iff]
  tauto

/-- No name occurs twice in a join, as long as none does in either version. -/
lemma nodup_keys_join {proposed stored joined : Version} (h : proposed.join stored = .ok joined)
    (hproposed : proposed.columns.keys.Nodup) (hstored : stored.columns.keys.Nodup) :
    joined.columns.keys.Nodup := by
  rw [keys_join h]
  refine List.nodup_append.2 ⟨hproposed, hstored.filter _, ?_⟩
  rintro name hown added hadded rfl
  -- only names that the proposed version lacks are added
  have hnone := (List.mem_filter.1 hadded).2
  exact get?_eq_none_iff.1 (Option.isNone_iff_eq_none.1 hnone) hown

/-! ## The values of a join -/

/-- A join of two cells has at least the value of the stored one. -/
lemma value_le_joinCell {column : String} {own held cell : Cell} {value : Value}
    (h : joinCell column own (some held) = .ok cell) (hvalue : held.value? = some value) :
    ∃ later, cell.value? = some later ∧ value ≤ later := by
  unfold joinCell at h
  simp only [hvalue] at h
  cases hown : own.value? with
  | none =>
    rw [hown] at h
    cases h
    exact ⟨value, hvalue, le_rfl⟩
  | some new =>
    rw [hown] at h
    obtain ⟨order, hcompare, h⟩ := bind_eq_ok h
    have hcompared := compareIn_compared column value new
    rw [hcompare] at hcompared
    cases hcompared with
    | less =>
      cases h
      exact ⟨value, hvalue, le_rfl⟩
    | equal heq =>
      cases h
      exact ⟨new, hown, heq.ge⟩
    | greater hlt =>
      cases h
      exact ⟨new, hown, hlt.le⟩

/-! ## Growth -/

/-- A version has grown into a later one: no name is gone, and where it has a value, the later
one has a value of the same type that is not smaller. -/
structure GrownInto (v later : Version) : Prop where
  names : ∀ name ∈ v.columns.keys, name ∈ later.columns.keys
  values : ∀ name value, v.value? name = some value →
    ∃ grown, later.value? name = some grown ∧ grown.type = value.type ∧ value ≤ grown

namespace GrownInto

variable {u v w : Version}

@[refl] lemma refl (v : Version) : v.GrownInto v where
  names _ hmem := hmem
  values _ value hvalue := ⟨value, hvalue, rfl, le_rfl⟩

lemma trans (huv : u.GrownInto v) (hvw : v.GrownInto w) : u.GrownInto w where
  names name hmem := hvw.names name (huv.names name hmem)
  values name value hvalue := by
    obtain ⟨between, hbetween, htype, hle⟩ := huv.values name value hvalue
    obtain ⟨grown, hgrown, htype', hle'⟩ := hvw.values name between hbetween
    exact ⟨grown, hgrown, htype'.trans htype, hle.trans hle'⟩

end GrownInto

/-- The stored version grows into the join. -/
theorem grownInto_join {proposed stored joined : Version}
    (h : proposed.join stored = .ok joined) : stored.GrownInto joined where
  names name hmem := (mem_keys_join h).2 (.inr hmem)
  values name value hvalue := by
    rcases get?_join_cases h name with ⟨-, hjoined⟩ | ⟨own, cell, -, hcell, hjoined⟩
    · refine ⟨value, ?_, rfl, le_rfl⟩
      rw [value?, hjoined]
      exact hvalue
    · obtain ⟨held, hheld, hvalue⟩ := Option.bind_eq_some_iff.1 hvalue
      rw [hheld] at hcell
      obtain ⟨later, hlater, hle⟩ := value_le_joinCell hcell hvalue
      refine ⟨later, ?_, (Value.type_eq_of_le hle).symm, hle⟩
      rw [value?, hjoined]
      exact hlater

end Version

end PartitionKeys
