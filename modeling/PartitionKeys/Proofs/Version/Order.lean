/-
# The order of values

The values of one type are in a total order in which only identical values are of equal rank,
doubles included, which are ranked by their bits.  Values of different types have no order, so
that all values together are partially ordered.  Comparing two values in a column answers how
they are ordered, and fails where they are not.
-/
import PartitionKeys.Version.Basic
import Mathlib.Order.Basic

namespace PartitionKeys

/-- Different patterns are at different places. -/
lemma Binary64.rank_injective {x y : Binary64} (h : x.rank = y.rank) : x = y := by
  obtain ⟨x⟩ := x
  obtain ⟨y⟩ := y
  have hx := x.toNat_lt
  have hy := y.toNat_lt
  have hbits : x.toNat = y.toNat := by
    simp only [rank, isNegative, magnitude, decide_eq_true_eq] at h
    split at h <;> split at h <;> omega
  rw [UInt64.toNat_inj.1 hbits]

namespace Value

/-- Comparing the other way round answers the opposite. -/
lemma compare?_swap (v w : Value) : w.compare? v = (v.compare? w).map Ordering.swap := by
  cases v <;> cases w <;> simp only [compare?, Option.map_none, Option.map_some]
  case double.double => exact congrArg some Std.OrientedOrd.eq_swap
  all_goals rw [← Std.OrientedOrd.eq_swap]

/-- Only identical values are of equal rank. -/
lemma compare?_eq_iff {v w : Value} : v.compare? w = some .eq ↔ v = w := by
  constructor
  · intro h
    cases v <;> cases w <;> simp only [compare?, Option.some_inj, reduceCtorEq] at h
    case int.int => rw [Int64.toInt_inj.1 (Std.LawfulEqOrd.eq_of_compare h)]
    case timestamp.timestamp => rw [Int64.toInt_inj.1 (Std.LawfulEqOrd.eq_of_compare h)]
    case string.string => rw [Std.LawfulEqOrd.eq_of_compare h]
    case double.double => rw [Binary64.rank_injective (Std.LawfulEqOrd.eq_of_compare h)]
  · rintro rfl
    cases v <;> exact congrArg some Std.ReflOrd.compare_self

lemma compare?_lt_trans {u v w : Value} (huv : u.compare? v = some .lt)
    (hvw : v.compare? w = some .lt) : u.compare? w = some .lt := by
  cases u <;> cases v <;> simp only [compare?, reduceCtorEq] at huv <;> cases w <;>
    simp only [compare?, Binary64.totalCompare, reduceCtorEq, Option.some_inj] at huv hvw ⊢
  all_goals exact Std.TransCmp.lt_trans huv hvw

/-- Values have an order exactly if they are of one type. -/
lemma compare?_eq_none_iff {v w : Value} : v.compare? w = none ↔ v.type ≠ w.type := by
  cases v <;> cases w <;> simp [compare?, type]

/-- A value is below another one if it is of the same type and of lower rank. -/
instance : PartialOrder Value where
  lt v w := v.compare? w = some .lt
  le v w := v.compare? w = some .lt ∨ v = w
  le_refl v := .inr rfl
  le_trans u v w := by
    rintro (huv | rfl) (hvw | rfl)
    · exact .inl (compare?_lt_trans huv hvw)
    · exact .inl huv
    · exact .inl hvw
    · exact .inr rfl
  lt_iff_le_not_ge v w := by
    constructor
    · intro h
      have hback : w.compare? v = some .gt := by rw [compare?_swap, h]; rfl
      refine ⟨.inl h, ?_⟩
      rintro (hlt | rfl)
      · rw [hback] at hlt
        cases hlt
      · rw [hback] at h
        cases h
    · rintro ⟨h | rfl, hnot⟩
      · exact h
      · exact absurd (.inr rfl) hnot
  le_antisymm v w := by
    rintro (h | rfl) (hback | heq)
    · rw [compare?_swap, h] at hback
      cases hback
    · exact heq.symm
    · rfl
    · rfl

instance (v w : Value) : Decidable (v < w) :=
  inferInstanceAs (Decidable (v.compare? w = some .lt))

lemma compare?_lt_iff {v w : Value} : v.compare? w = some .lt ↔ v < w := Iff.rfl

lemma compare?_gt_iff {v w : Value} : v.compare? w = some .gt ↔ w < v := by
  rw [← compare?_lt_iff, compare?_swap v w]
  cases v.compare? w with
  | none => simp
  | some order => cases order <;> simp

lemma type_eq_of_lt {v w : Value} (h : v < w) : v.type = w.type := by
  by_contra hne
  rw [← compare?_lt_iff, compare?_eq_none_iff.2 hne] at h
  cases h

lemma type_eq_of_le {v w : Value} (h : v ≤ w) : v.type = w.type := by
  rcases h with h | rfl
  · exact type_eq_of_lt h
  · rfl

/-- Two values of one type are ordered one way or the other. -/
lemma lt_or_ge_of_type_eq {v w : Value} (h : v.type = w.type) : v < w ∨ w ≤ v := by
  cases horder : v.compare? w with
  | none => exact absurd h (compare?_eq_none_iff.1 horder)
  | some order =>
    cases order with
    | lt => exact .inl horder
    | eq => exact .inr (compare?_eq_iff.1 horder).ge
    | gt => exact .inr (compare?_gt_iff.1 horder).le

end Value

/-! ## Comparing values in a column -/

/-- How a proposed value and the stored one compare in a column. -/
inductive Compared (column : String) (stored proposed : Value) :
    Except ComparisonError Ordering → Prop
  | less (h : proposed < stored) : Compared column stored proposed (.ok .lt)
  | equal (h : proposed = stored) : Compared column stored proposed (.ok .eq)
  | greater (h : stored < proposed) : Compared column stored proposed (.ok .gt)
  | mismatch (h : proposed.type ≠ stored.type) :
    Compared column stored proposed (.error (.typeMismatch column stored.type proposed.type))

lemma compareIn_compared (column : String) (stored proposed : Value) :
    Compared column stored proposed (compareIn column stored proposed) := by
  unfold compareIn
  cases horder : proposed.compare? stored with
  | none => exact .mismatch (Value.compare?_eq_none_iff.1 horder)
  | some order =>
    cases order with
    | lt => exact .less horder
    | eq => exact .equal (Value.compare?_eq_iff.1 horder)
    | gt => exact .greater (Value.compare?_gt_iff.1 horder)

end PartitionKeys
