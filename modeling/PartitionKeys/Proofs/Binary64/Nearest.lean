/-
# What rounds to a number

A quotient of whole numbers that lies between the middles towards the two neighbours of a
magnitude rounds to that magnitude; on a middle it does if the magnitude is even.  The middles
below the first number of a binade are half as far away, for which the quotient may still have
the exponent of the binade below; rounding then carries into the next one.
-/
import PartitionKeys.Binary64.Shortest
import PartitionKeys.Proofs.Binary64.Subtraction
import Mathlib.Tactic.Ring

namespace PartitionKeys

namespace Binary64

/-- A quotient of half units that lies among the reals that round to a magnitude. -/
def Roundings.Contains (r : Roundings) (num den : Nat) : Prop :=
  r.low * den ≤ num ∧ num ≤ r.high * den ∧
    (r.closed = true ∨ (r.low * den < num ∧ num < r.high * den))

/-! ## Rounding a quotient -/

/-- A quotient rounds to the whole number that is at most one half away, to an even one if it
is exactly one half away. -/
lemma roundEven_eq {num den n : Nat} (hden : 0 < den) (hlow : 2 * (n * den) ≤ 2 * num + den)
    (hhigh : 2 * num ≤ 2 * (n * den) + den)
    (htie : n % 2 = 0 ∨ (2 * (n * den) < 2 * num + den ∧ 2 * num < 2 * (n * den) + den)) :
    roundEven num den = n := by
  have hsplit : den * (num / den) + num % den = num := Nat.div_add_mod num den
  have hmod : num % den < den := Nat.mod_lt num hden
  have hle : n ≤ num / den + 1 := by
    by_contra hlt
    have hmul : (num / den + 2) * den ≤ n * den := Nat.mul_le_mul_right den (by omega)
    rw [Nat.add_mul, Nat.mul_comm (num / den)] at hmul
    omega
  have hge : num / den ≤ n := by
    by_contra hlt
    have hmul : (n + 1) * den ≤ num / den * den := Nat.mul_le_mul_right den (by omega)
    rw [Nat.add_mul, Nat.mul_comm (num / den)] at hmul
    omega
  unfold roundEven
  dsimp only
  rcases Nat.lt_or_eq_of_le hle with h | h
  · obtain rfl : num / den = n := by omega
    rw [Nat.mul_comm (num / den)] at hlow hhigh htie
    split <;> omega
  · subst h
    rw [Nat.add_mul, Nat.mul_comm (num / den)] at hlow hhigh htie
    split <;> omega

lemma nearestMagnitude_eq {num den s n : Nat} (hs : (num / den).log2 - 52 = s)
    (hn : roundEven num (den * 2 ^ s) = n) (hle : s * 2 ^ 52 + n ≤ infiniteMagnitude) :
    nearestMagnitude num den = s * 2 ^ 52 + n := by
  rw [nearestMagnitude, hs, Nat.shiftLeft_eq, hn]
  exact Nat.min_eq_right hle

/-- The surplus of a quotient in the lowest binade or below. -/
lemma surplus_eq_zero {num den : Nat} (h : num < 2 ^ 53 * den) : (num / den).log2 - 52 = 0 := by
  have hdiv : num / den < 2 ^ 53 := Nat.div_lt_of_lt_mul (by rwa [Nat.mul_comm])
  rcases Nat.eq_zero_or_pos (num / den) with hzero | hpos
  · simp [hzero]
  · have := (Nat.log2_lt hpos.ne').2 hdiv
    omega

/-- The surplus of a quotient in a binade. -/
lemma surplus_eq {num den s : Nat} (hlow : 2 ^ 52 * (den * 2 ^ s) ≤ num)
    (hhigh : num < 2 ^ 53 * (den * 2 ^ s)) : (num / den).log2 - 52 = s := by
  have hden : 0 < den := by
    rcases Nat.eq_zero_or_pos den with rfl | hpos
    · simp at hhigh
    · exact hpos
  have hge : 2 ^ (52 + s) ≤ num / den := by
    rw [Nat.le_div_iff_mul_le hden, Nat.pow_add, Nat.mul_assoc, Nat.mul_comm (2 ^ s)]
    exact hlow
  have hlt : num / den < 2 ^ (52 + s + 1) := by
    refine Nat.div_lt_of_lt_mul ?_
    rw [show 52 + s + 1 = 53 + s by omega, Nat.pow_add, Nat.mul_left_comm]
    exact hhigh
  have hne : num / den ≠ 0 := by
    have := Nat.two_pow_pos (52 + s)
    omega
  rw [(Nat.log2_eq_iff hne).2 ⟨hge, hlt⟩]
  omega

/-! ## The neighbours of a magnitude -/

/-- The value of a magnitude by its binade; the last one of a binade is the first one of the
next. -/
lemma unitsOf_binade {s f : Nat} (h : f ≤ 2 ^ 52) :
    unitsOf ((s + 1) * 2 ^ 52 + f) = (2 ^ 52 + f) * 2 ^ s := by
  rw [unitsOf_of_le (by omega)]
  rcases Nat.lt_or_eq_of_le h with hlt | rfl
  · rw [show ((s + 1) * 2 ^ 52 + f) % 2 ^ 52 = f by omega,
      show ((s + 1) * 2 ^ 52 + f) / 2 ^ 52 - 1 = s by omega]
  · rw [show ((s + 1) * 2 ^ 52 + 2 ^ 52) % 2 ^ 52 = 0 by omega,
      show ((s + 1) * 2 ^ 52 + 2 ^ 52) / 2 ^ 52 - 1 = s + 1 by omega, Nat.pow_succ]
    omega

/-- The middles are half a step of `2 ^ s` units away on both sides. -/
structure Roundings.IsCentred (r : Roundings) (s k : Nat) : Prop where
  value : r.value = 2 * (k * 2 ^ s)
  low : r.low + 2 ^ s = 2 * (k * 2 ^ s)
  high : r.high = 2 * (k * 2 ^ s) + 2 ^ s

lemma roundings_small {m : Nat} (h : m < 2 ^ 52) (hpos : 0 < m) :
    (roundings m).IsCentred 0 m := by
  have hnext : unitsOf (m + 1) = m + 1 := by
    rcases Nat.lt_or_eq_of_le (show m + 1 ≤ 2 ^ 52 by omega) with hlt | heq
    · exact unitsOf_of_lt hlt
    · rw [heq]
      rfl
  constructor
  · rw [Nat.pow_zero, Nat.mul_one, roundings, unitsOf_of_lt h]
  · simp only [roundings, unitsOf_of_lt h, unitsOf_of_lt (show m - 1 < 2 ^ 52 by omega)]
    omega
  · simp only [roundings, hnext, unitsOf_of_lt h]
    omega

lemma roundings_binade {s f : Nat} (hf : f < 2 ^ 52) (hinner : 0 < f ∨ s = 0) :
    (roundings ((s + 1) * 2 ^ 52 + f)).IsCentred s (2 ^ 52 + f) := by
  have hvalue : unitsOf ((s + 1) * 2 ^ 52 + f) = (2 ^ 52 + f) * 2 ^ s := unitsOf_binade (by omega)
  have hnext : unitsOf ((s + 1) * 2 ^ 52 + f + 1) = (2 ^ 52 + f) * 2 ^ s + 2 ^ s := by
    rw [Nat.add_assoc, unitsOf_binade (by omega), ← Nat.add_assoc, Nat.succ_mul]
  have hbefore : unitsOf ((s + 1) * 2 ^ 52 + f - 1) + 2 ^ s = (2 ^ 52 + f) * 2 ^ s := by
    rcases Nat.eq_zero_or_pos f with rfl | hpos
    · obtain rfl : s = 0 := by omega
      rw [unitsOf_of_lt (by omega)]
      omega
    · obtain ⟨f, rfl⟩ := Nat.exists_eq_succ_of_ne_zero hpos.ne'
      rw [Nat.succ_eq_add_one, ← Nat.add_assoc, Nat.add_sub_cancel, unitsOf_binade (by omega),
        ← Nat.add_assoc, Nat.succ_mul]
  constructor
  · rw [roundings, hvalue]
  · simp only [roundings, hvalue]
    omega
  · simp only [roundings, hvalue, hnext]
    omega

/-- At the start of a binade the middle below is a quarter of a step away. -/
structure Roundings.IsFirst (r : Roundings) (s : Nat) : Prop where
  value : r.value = 2 * (2 ^ 53 * 2 ^ s)
  low : r.low + 2 ^ s = 2 * (2 ^ 53 * 2 ^ s)
  high : r.high = 2 * (2 ^ 53 * 2 ^ s) + 2 * 2 ^ s

lemma roundings_first (s : Nat) : (roundings ((s + 2) * 2 ^ 52)).IsFirst s := by
  have hvalue : unitsOf ((s + 2) * 2 ^ 52) = 2 ^ 53 * 2 ^ s := by
    have h := unitsOf_binade (s := s) (Nat.le_refl (2 ^ 52))
    rw [show (s + 2) * 2 ^ 52 = (s + 1) * 2 ^ 52 + 2 ^ 52 by omega, h]
    omega
  have hnext : unitsOf ((s + 2) * 2 ^ 52 + 1) = 2 ^ 53 * 2 ^ s + 2 * 2 ^ s := by
    have h := unitsOf_binade (s := s + 1) (f := 1) (by omega)
    rw [h, Nat.pow_succ]
    omega
  have hbefore : unitsOf ((s + 2) * 2 ^ 52 - 1) + 2 ^ s = 2 ^ 53 * 2 ^ s := by
    have h := unitsOf_binade (s := s) (f := 2 ^ 52 - 1) (by omega)
    rw [show (s + 2) * 2 ^ 52 - 1 = (s + 1) * 2 ^ 52 + (2 ^ 52 - 1) by omega, h]
    omega
  constructor
  · rw [roundings, hvalue]
  · simp only [roundings, hvalue]
    omega
  · simp only [roundings, hvalue, hnext]
    omega

/-! ## The reals that round to a magnitude -/

section Contains

variable {m num den : Nat}

lemma closed_roundings : (roundings m).closed = true ↔ m % 2 = 0 := by simp [roundings]

/-- What lies at most half a step away from a magnitude rounds to it. -/
lemma nearestMagnitude_of_centred {s k : Nat} (hcentred : (roundings m).IsCentred s k)
    (hm : s * 2 ^ 52 + k = m) (hk : k < 2 ^ 53) (hbinade : s = 0 ∨ 2 ^ 52 < k)
    (hfinite : m ≤ infiniteMagnitude) (hden : 0 < den)
    (h : (roundings m).Contains (2 * num) den) : nearestMagnitude num den = m := by
  obtain ⟨hlow, hhigh, htie⟩ := h
  rw [closed_roundings] at htie
  -- the step in terms of the divisor
  have hstep : 0 < den * 2 ^ s := Nat.mul_pos hden (Nat.two_pow_pos s)
  have hends : (roundings m).low * den + den * 2 ^ s = 2 * (k * (den * 2 ^ s)) := by
    calc (roundings m).low * den + den * 2 ^ s = ((roundings m).low + 2 ^ s) * den := by ring
      _ = 2 * (k * (den * 2 ^ s)) := by rw [hcentred.low]; ring
  have hends' : (roundings m).high * den = 2 * (k * (den * 2 ^ s)) + den * 2 ^ s := by
    rw [hcentred.high]
    ring
  have hround : roundEven num (den * 2 ^ s) = k :=
    roundEven_eq hstep (by omega) (by omega) (by omega)
  have hsurplus : (num / den).log2 - 52 = s := by
    have hupper : (k + 1) * (den * 2 ^ s) ≤ 2 ^ 53 * (den * 2 ^ s) :=
      Nat.mul_le_mul_right _ hk
    rw [Nat.succ_mul] at hupper
    rcases hbinade with rfl | hinner
    · rw [Nat.pow_zero, Nat.mul_one] at hupper hends' hstep
      exact surplus_eq_zero (by omega)
    · have hlower : (2 ^ 52 + 1) * (den * 2 ^ s) ≤ k * (den * 2 ^ s) :=
        Nat.mul_le_mul_right _ hinner
      rw [Nat.succ_mul] at hlower
      exact surplus_eq (by omega) (by omega)
  rw [nearestMagnitude_eq hsurplus hround (hm ▸ hfinite), hm]

/-- At the start of a binade a quotient below the number has the exponent of the binade before,
in which it rounds up to the end. -/
lemma nearestMagnitude_of_first {s : Nat} (hfinite : (s + 2) * 2 ^ 52 ≤ infiniteMagnitude)
    (hden : 0 < den) (h : (roundings ((s + 2) * 2 ^ 52)).Contains (2 * num) den) :
    nearestMagnitude num den = (s + 2) * 2 ^ 52 := by
  -- the same magnitude from the binade before and from its own
  have hbefore : s * 2 ^ 52 + 2 ^ 53 = (s + 2) * 2 ^ 52 := by ring
  have hown : (s + 1) * 2 ^ 52 + 2 ^ 52 = (s + 2) * 2 ^ 52 := by ring
  obtain ⟨hlow, hhigh, -⟩ := h
  have hfirst := roundings_first s
  have hstep : 0 < den * 2 ^ s := Nat.mul_pos hden (Nat.two_pow_pos s)
  have hdouble : den * 2 ^ (s + 1) = 2 * (den * 2 ^ s) := by ring
  have hlower : (roundings ((s + 2) * 2 ^ 52)).low * den + den * 2 ^ s =
      2 * (2 ^ 53 * (den * 2 ^ s)) := by
    calc _ = ((roundings ((s + 2) * 2 ^ 52)).low + 2 ^ s) * den := by ring
      _ = 2 * (2 ^ 53 * (den * 2 ^ s)) := by rw [hfirst.low]; ring
  have hupper : (roundings ((s + 2) * 2 ^ 52)).high * den =
      2 * (2 ^ 53 * (den * 2 ^ s)) + 2 * (den * 2 ^ s) := by
    rw [hfirst.high]
    ring
  rcases Nat.lt_or_ge num (2 ^ 53 * (den * 2 ^ s)) with hbelow | habove
  · have hround : roundEven num (den * 2 ^ s) = 2 ^ 53 :=
      roundEven_eq hstep (by omega) (by omega) (.inl (by omega))
    have hsurplus : (num / den).log2 - 52 = s := surplus_eq (by omega) hbelow
    rw [nearestMagnitude_eq hsurplus hround (hbefore.le.trans hfinite), hbefore]
  · have hround : roundEven num (den * 2 ^ (s + 1)) = 2 ^ 52 :=
      roundEven_eq (by omega) (by omega) (by omega) (.inl (by omega))
    have hsurplus : (num / den).log2 - 52 = s + 1 := surplus_eq (by omega) (by omega)
    rw [nearestMagnitude_eq hsurplus hround (hown.le.trans hfinite), hown]

/-- Either the middles are half a step away, or the magnitude is the first of a binade. -/
lemma roundings_cases (hpos : 0 < m) :
    (∃ s k, (roundings m).IsCentred s k ∧ s * 2 ^ 52 + k = m ∧ k < 2 ^ 53 ∧
      (s = 0 ∨ 2 ^ 52 < k)) ∨ ∃ s, m = (s + 2) * 2 ^ 52 := by
  rcases Nat.lt_or_ge m (2 ^ 52) with hsmall | hlarge
  · refine .inl ⟨0, m, roundings_small hsmall hpos, ?_, by omega, .inl rfl⟩
    rw [Nat.zero_mul, Nat.zero_add]
  obtain ⟨s, f, hf, rfl⟩ : ∃ s f, f < 2 ^ 52 ∧ m = (s + 1) * 2 ^ 52 + f :=
    ⟨m / 2 ^ 52 - 1, m % 2 ^ 52, by omega, by omega⟩
  by_cases hinner : 0 < f ∨ s = 0
  · exact .inl ⟨s, 2 ^ 52 + f, roundings_binade hf hinner, by omega, by omega, by omega⟩
  · exact .inr ⟨s - 1, by omega⟩

/-- **What lies between the middles rounds to the magnitude between them.** -/
theorem nearestMagnitude_of_contains (hm : m < infiniteMagnitude) (hpos : 0 < m) (hden : 0 < den)
    (h : (roundings m).Contains (2 * num) den) : nearestMagnitude num den = m := by
  rcases roundings_cases hpos with ⟨s, k, hcentred, hindex, hk, hbinade⟩ | ⟨s, rfl⟩
  · exact nearestMagnitude_of_centred hcentred hindex hk hbinade hm.le hden h
  · exact nearestMagnitude_of_first hm.le hden h

end Contains

end Binary64

end PartitionKeys
