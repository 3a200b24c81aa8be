/-
# The order of keys

The orders of key parts, of primary keys and of index keys are total orders in which only
equal keys are of equal rank.  An index in the order of its keys relies on this: two keys
never share a place, and what is below a key is below everything above it.
-/
import PartitionKeys.Key.Hashed
import Mathlib.Tactic.Lemma

namespace PartitionKeys

namespace KeyPart

/-- Comparing the other way round answers the opposite. -/
lemma compare_swap (a b : KeyPart) : compare a b = (compare b a).swap := by
  cases a <;> cases b <;> simp only [compare]
  case int.int => exact Std.OrientedOrd.eq_swap
  case text.text => exact Std.OrientedOrd.eq_swap
  case bytes.bytes => exact Std.OrientedOrd.eq_swap
  all_goals rfl

instance : Std.OrientedOrd KeyPart where
  eq_swap := compare_swap _ _

instance : Std.TransOrd KeyPart where
  isLE_trans {a b c} hab hbc := by
    change (compare a b).isLE = true at hab
    change (compare b c).isLE = true at hbc
    change (compare a c).isLE = true
    cases a <;> cases b <;> cases c <;> simp only [compare] at hab hbc ⊢
    case int.int.int => exact Std.TransOrd.isLE_trans hab hbc
    case text.text.text => exact Std.TransOrd.isLE_trans hab hbc
    case bytes.bytes.bytes => exact Std.TransOrd.isLE_trans hab hbc
    all_goals first | rfl | exact absurd hab (by decide) | exact absurd hbc (by decide)

instance : Std.LawfulEqOrd KeyPart where
  compare_self {a} := by
    change compare a a = .eq
    cases a <;> exact Std.ReflOrd.compare_self
  eq_of_compare {a b} h := by
    change compare a b = .eq at h
    cases a <;> cases b <;> simp only [compare] at h
    case int.int a b => rw [Int64.toInt_inj.1 (Std.LawfulEqOrd.eq_of_compare h)]
    case text.text => rw [Std.LawfulEqOrd.eq_of_compare h]
    case bytes.bytes => rw [Std.LawfulEqOrd.eq_of_compare h]
    all_goals cases h

end KeyPart

namespace PrimaryKey

instance : Std.OrientedOrd PrimaryKey where
  eq_swap {a b} := Std.OrientedOrd.eq_swap (a := a.parts) (b := b.parts)

instance : Std.TransOrd PrimaryKey where
  isLE_trans {a b c} hab hbc :=
    Std.TransOrd.isLE_trans (a := a.parts) (b := b.parts) (c := c.parts) hab hbc

instance : Std.LawfulEqOrd PrimaryKey where
  compare_self {a} := Std.ReflOrd.compare_self (a := a.parts)
  eq_of_compare {a b} h := by
    have hparts : a.parts = b.parts := Std.LawfulEqOrd.eq_of_compare h
    cases a
    cases b
    rw [PrimaryKey.mk.injEq]
    exact hparts

end PrimaryKey

namespace IndexKey

/-- Comparing the other way round answers the opposite. -/
lemma compare_swap (a b : IndexKey) : compare a b = (compare b a).swap := by
  cases a <;> cases b <;> simp only [compare]
  case whole.whole => exact Std.OrientedOrd.eq_swap
  case fnv64.fnv64 => exact Std.OrientedOrd.eq_swap
  case sha256.sha256 => exact Std.OrientedOrd.eq_swap
  all_goals rfl

instance : Std.OrientedOrd IndexKey where
  eq_swap := compare_swap _ _

instance : Std.TransOrd IndexKey where
  isLE_trans {a b c} hab hbc := by
    change (compare a b).isLE = true at hab
    change (compare b c).isLE = true at hbc
    change (compare a c).isLE = true
    cases a <;> cases b <;> cases c <;> simp only [compare] at hab hbc ⊢
    case whole.whole.whole => exact Std.TransOrd.isLE_trans hab hbc
    case fnv64.fnv64.fnv64 => exact Std.TransOrd.isLE_trans hab hbc
    case sha256.sha256.sha256 => exact Std.TransOrd.isLE_trans hab hbc
    all_goals first | rfl | exact absurd hab (by decide) | exact absurd hbc (by decide)

instance : Std.LawfulEqOrd IndexKey where
  compare_self {a} := by
    change compare a a = .eq
    cases a <;> exact Std.ReflOrd.compare_self
  eq_of_compare {a b} h := by
    change compare a b = .eq at h
    cases a <;> cases b <;> simp only [compare] at h
    case whole.whole => rw [Std.LawfulEqOrd.eq_of_compare h]
    case fnv64.fnv64 => rw [Std.LawfulEqOrd.eq_of_compare h]
    case sha256.sha256 => rw [Std.LawfulEqOrd.eq_of_compare h]
    all_goals cases h

end IndexKey

end PartitionKeys
