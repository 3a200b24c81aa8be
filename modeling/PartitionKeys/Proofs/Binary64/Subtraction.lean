/-
# Subtraction keeps the order

Rounding never reverses the order of two numbers: the magnitude nearest to a whole number of
units grows with it, since a quotient in a higher binade begins where those of the lower one
end, carries included.  The units of a number grow with its magnitude for the same reason.
So, if a finite number is subtracted, the larger of two numbers has the larger difference.  What
is exact is not rounded at all, so that subtracting a positive number never makes a number larger.
-/
import PartitionKeys.Binary64.Rounding
import Mathlib.Algebra.Order.Ring.Nat
import Mathlib.Data.Nat.Log

namespace PartitionKeys

namespace Binary64

/-- Neither an infinity nor a not-a-number. -/
def isFinite (x : Binary64) : Bool := decide (x.magnitude < infiniteMagnitude)

/-! ## Rounding -/

lemma div_le_roundEven (num den : Nat) : num / den ≤ roundEven num den := by
  unfold roundEven
  dsimp only
  split <;> omega

lemma roundEven_le_div_succ (num den : Nat) : roundEven num den ≤ num / den + 1 := by
  unfold roundEven
  dsimp only
  split <;> omega

lemma roundEven_mono {a b : Nat} (h : a ≤ b) (den : Nat) : roundEven a den ≤ roundEven b den := by
  have hq : a / den ≤ b / den := Nat.div_le_div_right h
  rcases Nat.lt_or_eq_of_le hq with hlt | heq
  · calc roundEven a den ≤ a / den + 1 := roundEven_le_div_succ a den
      _ ≤ b / den := hlt
      _ ≤ roundEven b den := div_le_roundEven b den
  · -- with one quotient, the remainders are in order
    have hrem : a % den ≤ b % den := by
      have ha := Nat.div_add_mod a den
      have hb := Nat.div_add_mod b den
      rw [heq] at ha
      omega
    unfold roundEven
    dsimp only
    rw [heq]
    split <;> split <;> omega

/-- How far the quotient of a whole number of units exceeds fifty-three bits. -/
def surplus (n : Nat) : Nat := n.log2 - 52

lemma surplus_mono {a b : Nat} (h : a ≤ b) : surplus a ≤ surplus b := by
  have hlog : a.log2 ≤ b.log2 := by
    rw [Nat.log2_eq_log_two, Nat.log2_eq_log_two]
    exact Nat.log_mono_right h
  unfold surplus
  omega

/-- A quotient cut to fifty-three bits is rounded to at most the next power of two. -/
lemma roundEven_surplus_le (n : Nat) : roundEven n (2 ^ surplus n) ≤ 2 ^ 53 := by
  have hlt : n < 2 ^ 53 * 2 ^ surplus n := by
    calc n < 2 ^ (n.log2 + 1) := Nat.lt_log2_self
      _ ≤ 2 ^ (53 + surplus n) := Nat.pow_le_pow_right (by decide) (by unfold surplus; omega)
      _ = 2 ^ 53 * 2 ^ surplus n := Nat.pow_add 2 53 _
  have hdiv : n / 2 ^ surplus n < 2 ^ 53 := (Nat.div_lt_iff_lt_mul (Nat.two_pow_pos _)).2 hlt
  exact (roundEven_le_div_succ n _).trans hdiv

/-- A quotient that had to be cut has its leading bit. -/
lemma le_roundEven_surplus {n : Nat} (h : 0 < surplus n) :
    2 ^ 52 ≤ roundEven n (2 ^ surplus n) := by
  have hlog : n.log2 = 52 + surplus n := by
    unfold surplus at h ⊢
    omega
  have hne : n ≠ 0 := by
    rintro rfl
    simp [surplus] at h
  have hle : 2 ^ 52 * 2 ^ surplus n ≤ n := by
    rw [← Nat.pow_add, ← hlog]
    exact Nat.log2_self_le hne
  exact ((Nat.le_div_iff_mul_le (Nat.two_pow_pos _)).2 hle).trans (div_le_roundEven n _)

lemma nearestMagnitude_one (n : Nat) :
    nearestMagnitude n 1 =
      min infiniteMagnitude (surplus n * 2 ^ 52 + roundEven n (2 ^ surplus n)) := by
  unfold nearestMagnitude
  dsimp only
  rw [Nat.div_one, Nat.shiftLeft_eq, Nat.one_mul]
  rfl

/-- Rounding a whole number of units keeps the order. -/
lemma nearestMagnitude_mono {a b : Nat} (h : a ≤ b) :
    nearestMagnitude a 1 ≤ nearestMagnitude b 1 := by
  rw [nearestMagnitude_one, nearestMagnitude_one]
  refine min_le_min_left _ ?_
  rcases Nat.lt_or_eq_of_le (surplus_mono h) with hlt | heq
  · -- what the lower binade carries over is no more than where the higher one begins
    have hupper := roundEven_surplus_le a
    have hlower := le_roundEven_surplus (n := b) (by omega)
    omega
  · rw [heq]
    exact Nat.add_le_add_left (roundEven_mono h _) _

lemma nearestMagnitude_le (n : Nat) : nearestMagnitude n 1 ≤ infiniteMagnitude := by
  rw [nearestMagnitude_one]
  exact Nat.min_le_left _ _

lemma nearestMagnitude_zero : nearestMagnitude 0 1 = 0 := by decide

/-! ## Numbers from magnitudes -/

section OfMagnitude

variable {m : Nat}

lemma toNat_bits_ofMagnitude (h : m ≤ infiniteMagnitude) (negative : Bool) :
    (ofMagnitude negative m).bits.toNat =
      if negative then 0x8000000000000000 + m else m := by
  unfold infiniteMagnitude at h
  cases negative <;> simp [ofMagnitude] <;> omega

lemma magnitude_ofMagnitude (h : m ≤ infiniteMagnitude) (negative : Bool) :
    (ofMagnitude negative m).magnitude = m := by
  unfold magnitude
  rw [toNat_bits_ofMagnitude h]
  unfold infiniteMagnitude at h
  split <;> omega

lemma isNegative_ofMagnitude (h : m ≤ infiniteMagnitude) (negative : Bool) :
    (ofMagnitude negative m).isNegative = negative := by
  unfold isNegative
  rw [toNat_bits_ofMagnitude h]
  unfold infiniteMagnitude at h
  cases negative with
  | true => simp
  | false => simpa using by omega

lemma signed_ofMagnitude (h : m ≤ infiniteMagnitude) (negative : Bool) :
    (ofMagnitude negative m).signed = if negative then -(m : Int) else m := by
  unfold signed
  rw [magnitude_ofMagnitude h, isNegative_ofMagnitude h]

lemma isNaN_ofMagnitude (h : m ≤ infiniteMagnitude) (negative : Bool) :
    (ofMagnitude negative m).isNaN = false := by
  unfold isNaN
  rw [magnitude_ofMagnitude h]
  simpa using h

end OfMagnitude

lemma isNaN_ofUnits (negativeZero : Bool) (z : Int) : (ofUnits negativeZero z).isNaN = false :=
  isNaN_ofMagnitude (nearestMagnitude_le _) _

/-- The sign of a zero has no part in the numeric order. -/
lemma signed_ofUnits (negativeZero : Bool) (z : Int) :
    (ofUnits negativeZero z).signed =
      if z < 0 then -(nearestMagnitude z.natAbs 1 : Int) else nearestMagnitude z.natAbs 1 := by
  unfold ofUnits
  rw [signed_ofMagnitude (nearestMagnitude_le _)]
  by_cases hz : z = 0
  · subst hz
    simp [nearestMagnitude_zero]
  · simp [hz]

lemma signed_ofUnits_mono {y z : Int} (h : y ≤ z) (negativeZero negativeZero' : Bool) :
    (ofUnits negativeZero y).signed ≤ (ofUnits negativeZero' z).signed := by
  rw [signed_ofUnits, signed_ofUnits]
  split
  · split
    · have := nearestMagnitude_mono (show z.natAbs ≤ y.natAbs by omega)
      omega
    · omega
  · have := nearestMagnitude_mono (show y.natAbs ≤ z.natAbs by omega)
    split <;> omega

/-! ## Units -/

lemma unitsOf_of_lt {m : Nat} (h : m < 2 ^ 52) : unitsOf m = m := if_pos h

lemma unitsOf_of_le {m : Nat} (h : 2 ^ 52 ≤ m) :
    unitsOf m = (2 ^ 52 + m % 2 ^ 52) * 2 ^ (m / 2 ^ 52 - 1) := by
  have hnot : ¬m < 0x10000000000000 := Nat.not_lt.2 h
  unfold unitsOf
  rw [if_neg hnot, Nat.shiftLeft_eq]
  rfl

lemma unitsOf_mono {m n : Nat} (h : m ≤ n) : unitsOf m ≤ unitsOf n := by
  rcases Nat.lt_or_ge n (2 ^ 52) with hn | hn
  · rw [unitsOf_of_lt hn, unitsOf_of_lt (by omega)]
    exact h
  rw [unitsOf_of_le hn]
  have hpow := Nat.two_pow_pos (n / 2 ^ 52 - 1)
  rcases Nat.lt_or_ge m (2 ^ 52) with hm | hm
  · rw [unitsOf_of_lt hm]
    calc m ≤ 2 ^ 52 + n % 2 ^ 52 := by omega
      _ ≤ _ := Nat.le_mul_of_pos_right _ hpow
  rw [unitsOf_of_le hm]
  rcases Nat.lt_or_eq_of_le (Nat.div_le_div_right (c := 2 ^ 52) h) with hlt | heq
  · -- the block of `m` ends where the next one begins
    calc (2 ^ 52 + m % 2 ^ 52) * 2 ^ (m / 2 ^ 52 - 1)
        ≤ 2 ^ 53 * 2 ^ (m / 2 ^ 52 - 1) := Nat.mul_le_mul_right _ (by omega)
      _ = 2 ^ 52 * 2 ^ (m / 2 ^ 52 - 1 + 1) := by rw [Nat.pow_succ]; omega
      _ ≤ 2 ^ 52 * 2 ^ (n / 2 ^ 52 - 1) :=
        Nat.mul_le_mul_left _ (Nat.pow_le_pow_right (by decide) (by omega))
      _ ≤ (2 ^ 52 + n % 2 ^ 52) * 2 ^ (n / 2 ^ 52 - 1) := Nat.mul_le_mul_right _ (by omega)
  · rw [heq]
    exact Nat.mul_le_mul_right _ (by omega)

lemma unitsOf_zero : unitsOf 0 = 0 := rfl

lemma units_mono {x y : Binary64} (h : x.signed ≤ y.signed) : x.units ≤ y.units := by
  unfold signed at h
  unfold units
  cases hx : x.isNegative <;> cases hy : y.isNegative <;>
    simp only [hx, hy, Bool.false_eq_true, if_true, if_false] at h ⊢
  · have := unitsOf_mono (show x.magnitude ≤ y.magnitude by omega)
    omega
  · -- only zeros are both above a negative number and below a positive one
    have hx : x.magnitude = 0 := by omega
    have hy : y.magnitude = 0 := by omega
    rw [hx, hy, unitsOf_zero]
    decide
  · omega
  · have := unitsOf_mono (show y.magnitude ≤ x.magnitude by omega)
    omega

/-! ## Differences -/

lemma natAbs_signed (x : Binary64) : x.signed.natAbs = x.magnitude := by
  unfold signed
  split <;> omega

lemma isNaN_eq_false_iff {x : Binary64} : x.isNaN = false ↔ x.magnitude ≤ infiniteMagnitude := by
  simp [isNaN]

lemma isFinite_iff {x : Binary64} : x.isFinite = true ↔ x.magnitude < infiniteMagnitude := by
  simp [isFinite]

lemma isNaN_of_isFinite {x : Binary64} (h : x.isFinite = true) : x.isNaN = false :=
  isNaN_eq_false_iff.2 (Nat.le_of_lt (isFinite_iff.1 h))

section Sub

variable {x y z : Binary64}

lemma sub_of_infinite (hx : x.magnitude = infiniteMagnitude) (hz : z.isFinite = true) :
    x - z = x := by
  have hnan : x.isNaN = false := isNaN_eq_false_iff.2 hx.le
  have hne : z.magnitude ≠ infiniteMagnitude := (isFinite_iff.1 hz).ne
  change sub x z = x
  simp [sub, hnan, isNaN_of_isFinite hz, hx, hne]

lemma sub_of_finite (hx : x.isFinite = true) (hz : z.isFinite = true) :
    x - z = ofUnits (x.isNegative && !z.isNegative) (x.units - z.units) := by
  have hnex : x.magnitude ≠ infiniteMagnitude := (isFinite_iff.1 hx).ne
  have hnez : z.magnitude ≠ infiniteMagnitude := (isFinite_iff.1 hz).ne
  change sub x z = _
  simp [sub, isNaN_of_isFinite hx, isNaN_of_isFinite hz, hnex, hnez]

/-- A number is finite or one of the infinities. -/
lemma isFinite_or_infinite (hx : x.isNaN = false) :
    x.isFinite = true ∨ x.magnitude = infiniteMagnitude := by
  rw [isFinite_iff]
  exact Nat.lt_or_eq_of_le (isNaN_eq_false_iff.1 hx)

lemma isNaN_sub (hx : x.isNaN = false) (hz : z.isFinite = true) : (x - z).isNaN = false := by
  rcases isFinite_or_infinite hx with hfinite | hinfinite
  · rw [sub_of_finite hfinite hz]
    exact isNaN_ofUnits _ _
  · rw [sub_of_infinite hinfinite hz]
    exact hx

/-- Subtracting a finite number keeps the order of numbers. -/
lemma sub_le_sub_right (h : x ≤ y) (hz : z.isFinite = true) : x - z ≤ y - z := by
  obtain ⟨hx, hy, hle⟩ := h
  have hdx := isNaN_sub hx hz
  have hdy := isNaN_sub hy hz
  refine ⟨hdx, hdy, ?_⟩
  -- no difference lies beyond the infinities
  have hbx := isNaN_eq_false_iff.1 hdx
  have hby := isNaN_eq_false_iff.1 hdy
  have hax := natAbs_signed x
  have hay := natAbs_signed y
  rw [← natAbs_signed] at hbx hby
  rcases isFinite_or_infinite hx with hfx | hix <;> rcases isFinite_or_infinite hy with hfy | hiy
  · rw [sub_of_finite hfx hz, sub_of_finite hfy hz]
    exact signed_ofUnits_mono (Int.sub_le_sub_right (units_mono hle) _) _ _
  · have hmx := isFinite_iff.1 hfx
    rw [sub_of_infinite hiy hz]
    omega
  · have hmy := isFinite_iff.1 hfy
    rw [sub_of_infinite hix hz]
    omega
  · rw [sub_of_infinite hix hz, sub_of_infinite hiy hz]
    exact hle

end Sub

/-! ## A positive number subtracted -/

/-- A quotient that leaves no remainder is not rounded. -/
lemma roundEven_mul_self (q : Nat) {den : Nat} (h : 0 < den) : roundEven (q * den) den = q := by
  unfold roundEven
  rw [Nat.mul_div_cancel q h, Nat.mul_mod_left]
  dsimp only
  split <;> omega

/-- The units of a number in the binades have their leading bit where its block starts. -/
lemma log2_unitsOf {m : Nat} (h : 2 ^ 52 ≤ m) : (unitsOf m).log2 = 52 + (m / 2 ^ 52 - 1) := by
  have hpow := Nat.two_pow_pos (m / 2 ^ 52 - 1)
  have hlower : 2 ^ (52 + (m / 2 ^ 52 - 1)) ≤ unitsOf m := by
    rw [unitsOf_of_le h, Nat.pow_add]
    exact Nat.mul_le_mul_right _ (by omega)
  have hupper : unitsOf m < 2 ^ (52 + (m / 2 ^ 52 - 1) + 1) := by
    rw [unitsOf_of_le h, show 52 + (m / 2 ^ 52 - 1) + 1 = 53 + (m / 2 ^ 52 - 1) by omega,
      Nat.pow_add]
    exact Nat.mul_lt_mul_of_pos_right (by omega) hpow
  have hne : unitsOf m ≠ 0 := by
    have := Nat.two_pow_pos (52 + (m / 2 ^ 52 - 1))
    omega
  exact (Nat.log2_eq_iff hne).2 ⟨hlower, hupper⟩

/-- A finite magnitude is the one nearest to its own units. -/
lemma nearestMagnitude_unitsOf {m : Nat} (h : m < infiniteMagnitude) :
    nearestMagnitude (unitsOf m) 1 = m := by
  rw [nearestMagnitude_one]
  rcases Nat.lt_or_ge m (2 ^ 52) with hm | hm
  · have hsurplus : surplus m = 0 := by
      have hlog : m.log2 < 52 ∨ m = 0 := by
        rcases Nat.eq_zero_or_pos m with hzero | hpos
        · exact .inr hzero
        · exact .inl ((Nat.log2_lt hpos.ne').2 hm)
      unfold surplus
      rcases hlog with hlog | rfl
      · omega
      · rfl
    have hround : roundEven m 1 = m := by simpa using roundEven_mul_self m Nat.one_pos
    rw [unitsOf_of_lt hm, hsurplus, Nat.pow_zero, hround]
    omega
  · have hsurplus : surplus (unitsOf m) = m / 2 ^ 52 - 1 := by
      unfold surplus
      rw [log2_unitsOf hm]
      omega
    rw [hsurplus, unitsOf_of_le hm, roundEven_mul_self _ (Nat.two_pow_pos _)]
    unfold infiniteMagnitude at h ⊢
    omega

/-- A finite number is the one nearest to its own units. -/
lemma signed_ofUnits_units {x : Binary64} (hx : x.isFinite = true) (negativeZero : Bool) :
    (ofUnits negativeZero x.units).signed = x.signed := by
  have hnearest := nearestMagnitude_unitsOf (isFinite_iff.1 hx)
  rw [signed_ofUnits]
  unfold units signed
  cases x.isNegative with
  | true =>
    simp only [if_true, Int.natAbs_neg, Int.natAbs_natCast, hnearest]
    split
    · rfl
    · -- only zero is both negative and not below zero
      have hunits : unitsOf x.magnitude = 0 := by omega
      rw [hunits, nearestMagnitude_zero] at hnearest
      omega
  | false =>
    simp only [Bool.false_eq_true, if_false, Int.natAbs_natCast, hnearest]
    exact if_neg (by omega)

section Positive

variable {x y : Binary64}

lemma isNegative_of_pos (h : zero < x) : x.isNegative = false := by
  have hsigned : 0 < x.signed := h.2.2
  unfold signed at hsigned
  split at hsigned
  · omega
  · next hsign => simpa using hsign

lemma units_pos (h : zero < x) : 0 < x.units := by
  have hsign := isNegative_of_pos h
  have hsigned : 0 < x.signed := h.2.2
  have hone : unitsOf 1 = 1 := rfl
  simp only [signed, hsign, Bool.false_eq_true, if_false] at hsigned
  simp only [units, hsign, Bool.false_eq_true, if_false]
  have := unitsOf_mono (show 1 ≤ x.magnitude by omega)
  omega

/-- An infinity subtracted leaves the negative infinity, unless it leaves no number. -/
lemma signed_sub_of_infinite (hy : zero < y) (hinfinite : y.magnitude = infiniteMagnitude)
    (number : (x - y).isNaN = false) : (x - y).signed = -(infiniteMagnitude : Int) := by
  have hsign := isNegative_of_pos hy
  have hsub : x - y = sub x y := rfl
  rw [hsub] at number ⊢
  unfold sub at number ⊢
  split at number
  · cases number
  next hnumbers =>
  rw [if_neg hnumbers]
  split at number
  · next hx =>
    rw [if_pos hx]
    split at number
    · cases number
    · next hsame =>
      have hnegative : x.isNegative = true := by simpa [hinfinite, hsign] using hsame
      rw [if_neg hsame, signed, if_pos hnegative, hx]
  · next hx =>
    rw [if_neg hx, if_pos hinfinite, neg, hinfinite, hsign, signed_ofMagnitude le_rfl]
    rfl

/-- No number is below a difference that an infinity leaves. -/
lemma isFinite_of_lt_sub {t : Binary64} (hy : zero < y) (h : t < x - y) : y.isFinite = true := by
  rcases isFinite_or_infinite hy.2.1 with hfinite | hinfinite
  · exact hfinite
  · have hbound := isNaN_eq_false_iff.1 h.1
    have hlt := h.2.2
    rw [← natAbs_signed] at hbound
    rw [signed_sub_of_infinite hy hinfinite h.2.1] at hlt
    omega

/-- A difference is never above the number that a positive one is subtracted from. -/
lemma not_lt_sub (hy : zero < y) : ¬x < x - y := by
  intro h
  have hfinite := isFinite_of_lt_sub hy h
  rcases isFinite_or_infinite h.1 with hx | hx
  · have hpos := units_pos hy
    have hmono := signed_ofUnits_mono (show x.units - y.units ≤ x.units by omega)
      (x.isNegative && !y.isNegative) false
    rw [signed_ofUnits_units hx, ← sub_of_finite hx hfinite] at hmono
    exact absurd h.2.2 (Int.not_lt.2 hmono)
  · rw [sub_of_infinite hx hfinite] at h
    exact lt_irrefl x h

end Positive

/-! ## Numbers in order -/

lemma le_trans {x y z : Binary64} (hxy : x ≤ y) (hyz : y ≤ z) : x ≤ z :=
  ⟨hxy.1, hyz.2.1, hxy.2.2.trans hyz.2.2⟩

lemma lt_of_le_of_lt {x y z : Binary64} (hxy : x ≤ y) (hyz : y < z) : x < z :=
  ⟨hxy.1, hyz.2.1, hxy.2.2.trans_lt hyz.2.2⟩

lemma lt_of_lt_of_le {x y z : Binary64} (hxy : x < y) (hyz : y ≤ z) : x < z :=
  ⟨hxy.1, hyz.2.1, Int.lt_of_lt_of_le hxy.2.2 hyz.2.2⟩

lemma not_le_iff {x y : Binary64} (hx : x.isNaN = false) (hy : y.isNaN = false) :
    ¬y ≤ x ↔ x < y := by
  rw [le_def, lt_def, hx, hy]
  simp

end Binary64

end PartitionKeys
