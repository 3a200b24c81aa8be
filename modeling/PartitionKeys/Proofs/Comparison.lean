/-
# Linear comparisons

A comparison is linear if it puts everything in one line and only the same thing in the same
place.  What is spelled in a row of signs is compared by the first sign in which two rows differ;
such a comparison follows the order of what is spelled, as soon as the spellings of two single
members tell them apart in that order whatever comes behind them.
-/
import Mathlib.Tactic.Common

namespace PartitionKeys

variable {α β γ : Type}

/-- A comparison puts everything in one line, and only the same thing in the same place. -/
structure IsLinear (cmp : α → α → Ordering) : Prop where
  antisymm : ∀ a b, (cmp a b).isLE = true → (cmp b a).isLE = true → a = b
  trans : ∀ a b c, (cmp a b).isLE = true → (cmp b c).isLE = true → (cmp a c).isLE = true
  total : ∀ a b, (cmp a b).isLE = true ∨ (cmp b a).isLE = true
  eq_iff : ∀ a b, cmp a b = .eq ↔ a = b

lemma isLinear_of_lawful (cmp : α → α → Ordering) [Std.TransCmp cmp] [Std.LawfulEqCmp cmp] :
    IsLinear cmp where
  antisymm _ _ hab hba := Std.LawfulEqCmp.eq_of_compare (Std.OrientedCmp.isLE_antisymm hab hba)
  trans _ _ _ := Std.TransCmp.isLE_trans
  total a b := by
    have hswap : cmp b a = (cmp a b).swap := Std.OrientedCmp.eq_swap
    rw [hswap]
    cases cmp a b <;> decide
  eq_iff _ _ := Std.LawfulEqCmp.compare_eq_iff_eq

/-- Images are compared as what they are images of, if what is below goes to what is below. -/
lemma compare_image [Ord α] [Std.OrientedOrd α] [Std.LawfulEqOrd α] [Ord γ] [Std.OrientedOrd γ]
    {f : α → γ} (hf : ∀ {a b}, compare a b = .lt → compare (f a) (f b) = .lt) (a b : α) :
    compare (f a) (f b) = compare a b := by
  cases horder : compare a b with
  | lt => exact hf horder
  | eq => rw [Std.LawfulEqOrd.eq_of_compare horder, Std.ReflOrd.compare_self]
  | gt => exact Std.OrientedCmp.gt_of_lt (hf (Std.OrientedCmp.lt_of_gt horder))

/-! ## Rows -/

section

variable [Ord β] [Std.ReflOrd β]

lemma compare_append_left (common row other : List β) :
    compare (common ++ row) (common ++ other) = compare row other := by
  induction common with
  | nil => rfl
  | cons sign common ih =>
    rw [List.cons_append, List.cons_append, List.compare_cons_cons, Std.ReflOrd.compare_self,
      Ordering.eq_then, ih]

/-- Where a larger member has a larger spelling, whatever comes behind the two, a larger list of
members has a larger spelling. -/
lemma compare_flatMap_of_lex [LT α] {spell : α → List β} (hne : ∀ a, spell a ≠ [])
    (hlt : ∀ {a b}, a < b → ∀ row other, compare (spell a ++ row) (spell b ++ other) = .lt)
    {members others : List α} (h : List.Lex (· < ·) members others) :
    compare (members.flatMap spell) (others.flatMap spell) = .lt := by
  induction h with
  | @nil b others =>
    obtain ⟨sign, row, hspell⟩ := List.exists_cons_of_ne_nil (hne b)
    rw [List.flatMap_nil, List.flatMap_cons, hspell, List.cons_append, List.compare_nil_cons]
  | cons _ ih => rw [List.flatMap_cons, List.flatMap_cons, compare_append_left, ih]
  | rel hab => exact hlt hab _ _

end

end PartitionKeys
