/-
# Values of one type in one line

Two values can be compared exactly if they are of one type.  The values of one type are in a
line in which each has its own place; a double has the place of its pattern read as a signed
number, with the bits below a negative sign turned over.  This is the order of versions.  Times
are numbers and have an order of their own, to which it never runs contrary: of two values the
lower one is not the later time.
-/
import PartitionKeys.Proofs.Comparison
import PartitionKeys.Proofs.Version.Maxima
import PartitionKeys.Proofs.Version.Order

namespace PartitionKeys

namespace Binary64

/-! ## The place of a pattern -/

/-- The pattern as a signed number; if it is negative, the bits below the sign are turned over. -/
def folded (x : Binary64) : Int64 :=
  let pattern := x.bits.toInt64
  pattern ^^^ ((pattern >>> 63).toUInt64 >>> 1).toInt64

/-- Turning over all bits below the highest one. -/
lemma xor_below_sign {m : Nat} (h : m < 0x8000000000000000) :
    (0x8000000000000000 + m) ^^^ 0x7fffffffffffffff = 0xffffffffffffffff - m := by
  have hm : m < 2 ^ 63 := h
  have hsum : 0xffffffffffffffff - m = 2 ^ 63 + (2 ^ 63 - (m + 1)) := by omega
  rw [hsum]
  refine Nat.eq_of_testBit_eq fun i => ?_
  change ((2 ^ 63 + m) ^^^ (2 ^ 63 - (0 + 1))).testBit i = _
  rw [Nat.testBit_xor, Nat.testBit_two_pow_sub_succ (by decide)]
  rcases Nat.lt_trichotomy i 63 with hlow | rfl | hhigh
  · rw [Nat.testBit_two_pow_add_gt hlow, Nat.testBit_two_pow_add_gt hlow,
      Nat.testBit_two_pow_sub_succ hm]
    simp [hlow]
  · rw [Nat.testBit_two_pow_add_eq, Nat.testBit_two_pow_add_eq, Nat.testBit_two_pow_sub_succ hm,
      Nat.testBit_lt_two_pow hm]
    simp
  · have hpow : 2 ^ 64 ≤ 2 ^ i := Nat.pow_le_pow_right (by decide) hhigh
    have hleft : 2 ^ 63 + m < 2 ^ i := by omega
    have hright : 2 ^ 63 + (2 ^ 63 - (m + 1)) < 2 ^ i := by omega
    rw [Nat.testBit_lt_two_pow hleft, Nat.testBit_lt_two_pow hright]
    simp [Nat.not_lt.2 hhigh.le]

/-- Shifted out to its sign, a pattern is all ones or all zeros. -/
lemma toNat_sshiftRight_sign (n : UInt64) :
    (n.toBitVec.sshiftRight 63).toNat =
      if 0x8000000000000000 ≤ n.toNat then 0xffffffffffffffff else 0 := by
  have hn := n.toNat_lt
  have hmsb : n.toBitVec.msb = decide (0x8000000000000000 ≤ n.toNat) := BitVec.msb_eq_decide _
  split
  · next hsign =>
    rw [BitVec.sshiftRight_eq_of_msb_true (hmsb.trans (decide_eq_true hsign))]
    simp
    omega
  · next hsign =>
    rw [BitVec.sshiftRight_eq_of_msb_false (hmsb.trans (decide_eq_false hsign))]
    simp
    omega

lemma toInt_folded (x : Binary64) : x.folded.toInt = x.rank := by
  have hfolded : x.folded.toInt =
      Int.bmod (x.bits.toNat ^^^ (x.bits.toBitVec.sshiftRight 63).toNat >>> 1 : Nat)
        0x10000000000000000 := by
    unfold folded
    dsimp only
    rw [← Int64.toInt_toBitVec]
    simp
  have hx := x.bits.toNat_lt
  rw [hfolded, toNat_sshiftRight_sign]
  unfold rank isNegative magnitude
  simp only [decide_eq_true_eq]
  split
  · next hsign =>
    obtain ⟨m, hm⟩ := Nat.exists_eq_add_of_le hsign
    rw [hm]
    change Int.bmod ((0x8000000000000000 + m) ^^^ 0x7fffffffffffffff : Nat) _ = _
    rw [xor_below_sign (by omega), Int.bmod_def]
    omega
  · change Int.bmod (x.bits.toNat ^^^ 0 : Nat) _ = _
    rw [Nat.xor_zero, Int.bmod_def]
    omega

/-- Among numbers, what has the lower place is not the larger number. -/
lemma le_of_rank_lt {x y : Binary64} (hx : x.isNaN = false) (hy : y.isNaN = false)
    (h : x.rank < y.rank) : x ≤ y := by
  refine ⟨hx, hy, ?_⟩
  unfold rank at h
  unfold signed
  cases hxsign : x.isNegative <;> cases hysign : y.isNegative <;>
    simp only [hxsign, hysign, Bool.false_eq_true, ↓reduceIte] at h ⊢ <;> omega

end Binary64

namespace Value

/-! ## The values of one type -/

/-- The comparison of the values of one type. -/
def compareWithin (type : ValueType) (v w : {v : Value // v.type = type}) : Ordering :=
  (v.1.compare? w.1).get (by
    rw [Option.isSome_iff_ne_none, ne_eq, compare?_eq_none_iff, not_not, v.2, w.2])

lemma some_compareWithin (type : ValueType) (v w : {v : Value // v.type = type}) :
    some (compareWithin type v w) = v.1.compare? w.1 :=
  Option.some_get _

lemma isLE_compareWithin_iff {type : ValueType} {v w : {v : Value // v.type = type}} :
    (compareWithin type v w).isLE = true ↔ v.1 ≤ w.1 := by
  have hle : v.1 ≤ w.1 ↔ v.1.compare? w.1 = some .lt ∨ v.1.compare? w.1 = some .eq :=
    or_congr_right compare?_eq_iff.symm
  rw [hle, ← some_compareWithin]
  cases compareWithin type v w <;> simp

lemma compareWithin_isLinear (type : ValueType) : IsLinear (compareWithin type) where
  antisymm v w hvw hwv :=
    Subtype.ext (le_antisymm (isLE_compareWithin_iff.1 hvw) (isLE_compareWithin_iff.1 hwv))
  trans u v w huv hvw :=
    isLE_compareWithin_iff.2 ((isLE_compareWithin_iff.1 huv).trans (isLE_compareWithin_iff.1 hvw))
  total v w := by
    rw [isLE_compareWithin_iff, isLE_compareWithin_iff]
    exact (lt_or_ge_of_type_eq (v.2.trans w.2.symm)).imp_left le_of_lt
  eq_iff v w := by
    rw [Subtype.ext_iff, ← compare?_eq_iff, ← some_compareWithin, Option.some_inj]

/-! ## Values and times -/

/-- Of two values the lower one is not the later time. -/
lemma time_le_of_lt {v w : Value} {s t : Binary64} (h : v < w) (hs : v.time? = some s)
    (ht : w.time? = some t) (hsnumber : s.isNaN = false) (htnumber : t.isNaN = false) : s ≤ t := by
  have horder : v.compare? w = some .lt := h
  cases v <;> cases w <;> simp only [compare?, reduceCtorEq, Option.some_inj] at horder
  case int.int a b | timestamp.timestamp a b =>
    cases hs
    cases ht
    exact Binary64.ofInt_mono (Int.compare_eq_lt.1 horder).le
  case double.double x y =>
    cases hs
    cases ht
    exact Binary64.le_of_rank_lt hsnumber htnumber (Int.compare_eq_lt.1 horder)
  case string.string => cases hs

/-- **The values of each type are in one line.**  Two values can be compared exactly if they are
of one type.  Within a type the comparison is linear, and doubles are compared by their patterns,
so that they are equal exactly if they have the same bits.  If one value is below another, its
time is not later; between two numbers this is their order. -/
theorem values_of_one_type_are_in_line :
    (∀ v w : Value, v.compare? w = none ↔ v.type ≠ w.type) ∧
    (∀ type, IsLinear (compareWithin type) ∧
      ∀ v w, v.1.compare? w.1 = some (compareWithin type v w)) ∧
    (∀ v w : Value, v.compare? w = some .eq ↔ v = w) ∧
    (∀ x y : Binary64,
      (double x).compare? (double y) = some (compare x.folded.toInt y.folded.toInt) ∧
      ((double x).compare? (double y) = some .eq ↔ x.bits = y.bits)) ∧
    ∀ (v w : Value) (s t : Binary64), v.compare? w = some .lt → v.time? = some s →
      w.time? = some t → ¬t < s ∧ (s.isNaN = false → t.isNaN = false → s ≤ t) := by
  refine ⟨fun v w => compare?_eq_none_iff, fun type => ?_, fun v w => compare?_eq_iff,
    fun x y => ⟨?_, ?_⟩, fun v w s t h hs ht => ?_⟩
  · exact ⟨compareWithin_isLinear type, fun v w => (some_compareWithin type v w).symm⟩
  · rw [Binary64.toInt_folded, Binary64.toInt_folded]
    rfl
  · rw [compare?_eq_iff, double.injEq, Binary64.mk.injEq]
  · have hle := time_le_of_lt h hs ht
    refine ⟨fun hlt => ?_, hle⟩
    -- only numbers are ordered as times
    have hnot := (hle hlt.2.1 hlt.1).2.2
    exact absurd hlt.2.2 (not_lt.2 hnot)

end Value

/-- Patterns from the lowest place to the highest: the infinities and the zeros, and those that
are no numbers. -/
def Sample.extremes : List Binary64 :=
  [⟨0xffffffffffffffff⟩, .negativeInfinity, ⟨0x8000000000000000⟩, .zero, ⟨0x7ff0000000000000⟩,
    .nan, ⟨0x7ff8000000000001⟩]

/-- Each pattern has a place of its own, the zeros and the ones that are no numbers as well, and
none is later than the ones above it. -/
theorem values_of_one_type_are_in_line_extremes :
    (Sample.extremes.Pairwise fun x y => (Value.double x).compare? (.double y) = some .lt) ∧
    Sample.extremes.Pairwise fun x y => ¬y < x := by
  have hplaces : Sample.extremes.Pairwise fun x y =>
      (Value.double x).compare? (.double y) = some .lt := by decide +kernel
  obtain ⟨-, -, -, -, htimes⟩ := Value.values_of_one_type_are_in_line
  exact ⟨hplaces, hplaces.imp fun {x y} h => (htimes _ _ x y h rfl rfl).1⟩

end PartitionKeys
