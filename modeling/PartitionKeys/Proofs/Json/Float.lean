/-
# Floating point numbers that survive JSON

A number is read in rounded steps, so that it need not be the number again that was written.
It is if the digits fit into fifty-three bits and the point is at most twenty-two places away:
then both parts of the quotient are exact, the quotient is rounded once, and the decimal lies
among the reals that round to the number.
-/
import PartitionKeys.Proofs.Json.Spelling

namespace PartitionKeys

open Json

/-- A decimal whose digits fit into fifty-three bits, with one more digit and with the zeros
before the point, and whose last digit is not too far behind the point. -/
structure Decimal.IsShort (d : Decimal) : Prop where
  digits : 10 * (d.digits * 10 ^ d.exponent.toNat) < 2 ^ 53
  exponent : -22 ≤ d.exponent

namespace Json

open Layout

/-! ## From the text to the number -/

namespace Literal

/-- A number that was read in rounded steps. -/
def scaledNumber (negative : Bool) : Option Nat → Except Fault Number
  | some m => .ok (.float (Binary64.ofMagnitude negative m))
  | none => .error .malformed

/-- Digits before and behind the point are taken up one after the other. -/
lemma accumulate_append {whole fraction : List Char} {significand : Nat}
    (h : Nat.ofDigitChars 10 (whole ++ fraction) 0 = significand)
    (hfits : significand < UInt64.size) :
    ∃ lead, accumulate 0 whole = (lead, []) ∧ accumulate lead fraction = (significand, []) := by
  rw [Nat.ofDigitChars_append] at h
  have hlead := le_ofDigitChars fraction (Nat.ofDigitChars 10 whole 0)
  refine ⟨_, accumulate_eq (by omega), ?_⟩
  rw [accumulate_eq (by omega), h]

/-- A number with a point is evaluated from all its digits. -/
lemma value_of_point {negative : Bool} {whole fraction : List Char} {significand : Nat}
    (h : Nat.ofDigitChars 10 (whole ++ fraction) 0 = significand)
    (hfits : significand < UInt64.size) :
    (Literal.mk negative whole (some fraction) none).value =
      scaledNumber negative
        (scale 4 (Binary64.magnitudeOfNat significand) (-(fraction.length : Int))) := by
  obtain ⟨lead, hwhole, hfraction⟩ := accumulate_append h hfits
  simp only [value, hwhole, Option.getD_some, hfraction, scaled, List.length_nil]
  rw [show ((0 : Nat) : Int) - ((fraction.length - 0 : Nat) : Int) = -(fraction.length : Int) by
    omega]
  rfl

lemma foldl_toDigits (n : Nat) :
    (Nat.toDigits 10 n).foldl (fun n c => n * 10 + digitValue c) 0 = n := by
  have hdigits : (Nat.toDigits 10 n).foldl (fun n c => 10 * n + (c.toNat - '0'.toNat)) 0 = n := by
    rw [← Nat.ofDigitChars_eq_foldl, Nat.ofDigitChars_ten_toDigits]
  simpa only [digitValue, Nat.mul_comm] using hdigits

/-- A number with an exponent is evaluated from all its digits; an exponent of that size is
counted in full. -/
lemma value_of_exponent {negative : Bool} {whole : List Char} {fraction : Option (List Char)}
    {significand : Nat} {e : Int}
    (h : Nat.ofDigitChars 10 (whole ++ fraction.getD []) 0 = significand)
    (hfits : significand < UInt64.size)
    (hsmall : (fraction.getD []).length + e.natAbs ≤ exponentLimit) :
    (Literal.mk negative whole fraction (some (decide (e < 0), Nat.toDigits 10 e.natAbs))).value =
      scaledNumber negative (scale 4 (Binary64.magnitudeOfNat significand)
        (e - ((fraction.getD []).length : Int))) := by
  obtain ⟨lead, hwhole, hfraction⟩ := accumulate_append h hfits
  have hlimit : ¬ exponentLimit < e.natAbs := by omega
  have hclamp : clampExponent (e - ((fraction.getD []).length : Int)) =
      e - ((fraction.getD []).length : Int) := by
    unfold clampExponent exponentLimit at *
    omega
  have htotal : (if decide (e < 0) = true then
        ((0 : Nat) : Int) - (((fraction.getD []).length - 0 : Nat) : Int) - e.natAbs
      else ((0 : Nat) : Int) - (((fraction.getD []).length - 0 : Nat) : Int) + e.natAbs) =
      e - ((fraction.getD []).length : Int) := by
    rcases Int.lt_or_le e 0 with hneg | hneg
    · simp only [hneg, decide_true, if_true]
      omega
    · simp only [Int.not_lt.2 hneg, decide_false, Bool.false_eq_true, if_false]
      omega
  simp only [value, hwhole, hfraction, scaled, foldl_toDigits, hlimit, if_false, List.length_nil]
  rw [htotal, hclamp]
  rfl

end Literal

/-! ## Numbers that are read back exactly -/

/-- A quotient of whole numbers lies where an equal quotient lies. -/
lemma contains_of_ratio {r : Binary64.Roundings} {num den num' den' : Nat} (hden : 0 < den)
    (hden' : 0 < den') (h : num * den' = num' * den) (hcontains : r.Contains num den) :
    r.Contains num' den' := by
  have hle : ∀ bound, bound * den ≤ num ↔ bound * den' ≤ num' := by
    intro bound
    rw [← Nat.mul_le_mul_right_iff hden', h, Nat.mul_right_comm, Nat.mul_le_mul_right_iff hden]
  have hge : ∀ bound, num ≤ bound * den ↔ num' ≤ bound * den' := by
    intro bound
    rw [← Nat.mul_le_mul_right_iff hden', h, Nat.mul_right_comm, Nat.mul_le_mul_right_iff hden]
  obtain ⟨hlow, hhigh, htie⟩ := hcontains
  refine ⟨(hle _).1 hlow, (hge _).1 hhigh, htie.imp_right fun hstrict => ⟨?_, ?_⟩⟩
  · exact Nat.lt_of_not_le fun h => Nat.not_le.2 hstrict.1 ((hge _).2 h)
  · exact Nat.lt_of_not_le fun h => Nat.not_le.2 hstrict.2 ((hle _).2 h)

/-- Powers of ten are exact as long as their odd part has fifty-three bits. -/
lemma unitsOf_power : ∀ k ≤ 22, Binary64.unitsOf (Binary64.magnitudeOfNat (Nat.pow 10 k)) =
    Nat.pow 10 k * Binary64.unitsPerOne := by decide +kernel

/-- **An exact quotient is rounded once**: if the digits have fifty-three bits and the point is
at most twenty-two places away, a decimal that names a number is read as the number. -/
theorem scale_of_names {d : Decimal} {m significand k : Nat} (hm : m < Binary64.infiniteMagnitude)
    (hpos : 0 < m) (hd : d.Names m) (hsignificand : 0 < significand ∧ significand < 2 ^ 53)
    (hk : 0 < k ∧ k ≤ 22)
    (hvalue : d.digits * 10 ^ d.exponent.toNat * 10 ^ k = significand * d.den) :
    scale 4 (Binary64.magnitudeOfNat significand) (-(k : Int)) = some m := by
  have hone := Binary64.unitsPerOne_pos
  have hpower : 0 < 10 ^ k * Binary64.unitsPerOne := Nat.mul_pos (Nat.pow_pos (by omega)) hone
  obtain ⟨hexact, -, -⟩ := Binary64.unitsOf_magnitudeOfNat hsignificand.1 hsignificand.2
  have hquotient : Binary64.divMagnitude (Binary64.magnitudeOfNat significand)
      (Binary64.magnitudeOfNat (Nat.pow 10 k)) = m := by
    rw [Binary64.divMagnitude, hexact, unitsOf_power k hk.2]
    refine Binary64.nearestMagnitude_of_contains hm hpos hpower ?_
    refine contains_of_ratio (Nat.pow_pos (by omega)) hpower ?_ hd.contains
    calc d.num * (10 ^ k * Binary64.unitsPerOne)
        = d.digits * 10 ^ d.exponent.toNat * 10 ^ k *
            (2 * Binary64.unitsPerOne * Binary64.unitsPerOne) := by rw [Decimal.num]; ring
      _ = 2 * (significand * Binary64.unitsPerOne * Binary64.unitsPerOne) * d.den := by
          rw [hvalue]; ring
  have habs : (-(k : Int)).natAbs = k := by omega
  have hneg : ¬ 0 ≤ -(k : Int) := by omega
  have hsmall : k ≤ 308 := by omega
  simp only [scale, habs, hsmall, hneg, if_true, if_false, hquotient]

lemma ofMagnitude_magnitude (x : Binary64) :
    Binary64.ofMagnitude x.isNegative x.magnitude = x := by
  have hlt := x.bits.toNat_lt
  have hbits : (if x.isNegative = true then 0x8000000000000000 + x.magnitude else x.magnitude) =
      x.bits.toNat := by
    unfold Binary64.isNegative Binary64.magnitude
    split <;> rename_i h <;> simp at h <;> omega
  rw [Binary64.ofMagnitude, hbits, UInt64.ofNat_toNat]

namespace Literal

variable {d : Decimal} {digits : List Char} {zeros : Nat}

/-- The significant digits as a number. -/
lemma ofDigitChars_significant
    (h : Nat.toDigits 10 d.digits = digits ++ List.replicate zeros '0') :
    Nat.ofDigitChars 10 digits 0 * 10 ^ zeros = d.digits := by
  rw [← Nat.ofDigitChars_ten_toDigits (n := d.digits), h, Nat.ofDigitChars_append,
    Nat.ofDigitChars_replicate_zero, Nat.mul_comm]

/-- A short decimal has its leading digit within sixteen places before the point. -/
lemma point_of_short (hshort : d.IsShort) (hne : d.digits ≠ 0)
    (h : Nat.toDigits 10 d.digits = digits ++ List.replicate zeros '0') :
    (digits.length : Int) + zeros + d.exponent ≤ 16 := by
  have hcount : Binary64.digitCount d.digits = digits.length + zeros := by
    rw [Binary64.digitCount, h, List.length_append, List.length_replicate]
  have hlead := Binary64.pow_le_of_digitCount (Nat.pos_of_ne_zero hne) hcount
  have hdigits := hshort.digits
  by_contra hlt
  have hpow : 10 ^ 16 ≤ 10 ^ (digits.length + zeros - 1 + d.exponent.toNat) :=
    Nat.pow_le_pow_right (by omega) (by omega)
  have hmul : 10 ^ (digits.length + zeros - 1) * 10 ^ d.exponent.toNat ≤
      d.digits * 10 ^ d.exponent.toNat := Nat.mul_le_mul_right _ hlead
  rw [← Nat.pow_add] at hmul
  omega

section Short

variable {m n : Nat} (hm : m < Binary64.infiniteMagnitude) (hpos : 0 < m) (hnames : d.Names m)
  (hshort : d.IsShort) (hn : n * 10 ^ zeros = d.digits)

include hm hpos hnames hshort hn

/-- Where the last significant digit is behind the point. -/
lemma scale_fraction {k : Nat} (hk : 0 < k) (hplace : zeros + d.exponent = -(k : Int)) :
    n < 2 ^ 53 ∧ scale 4 (Binary64.magnitudeOfNat n) (-(k : Int)) = some m := by
  obtain ⟨hdigits, hexponent⟩ := hshort
  have hwhole : d.exponent.toNat = 0 := by omega
  have hle : n ≤ d.digits := by
    rw [← hn]
    exact Nat.le_mul_of_pos_right _ (Nat.pow_pos (by omega))
  rw [hwhole, Nat.pow_zero, Nat.mul_one] at hdigits
  have hnpos : 0 < n := by
    refine Nat.pos_of_ne_zero ?_
    rintro rfl
    exact hnames.digits_ne_zero (by rw [← hn, Nat.zero_mul])
  refine ⟨by omega, scale_of_names hm hpos hnames ⟨hnpos, by omega⟩ ⟨hk, by omega⟩ ?_⟩
  rw [hwhole, Decimal.den, show (-d.exponent).toNat = zeros + k by omega, ← hn]
  ring

/-- Where the last significant digit is before the point, a zero behind the point is written. -/
lemma scale_whole {w : Nat} (hplace : zeros + d.exponent = (w : Int)) :
    n * 10 ^ w * 10 < 2 ^ 53 ∧
      scale 4 (Binary64.magnitudeOfNat (n * 10 ^ w * 10)) (-((1 : Nat) : Int)) = some m := by
  obtain ⟨hdigits, hexponent⟩ := hshort
  have hle : n * 10 ^ w ≤ d.digits * 10 ^ d.exponent.toNat := by
    rw [← hn, Nat.mul_assoc, ← Nat.pow_add]
    exact Nat.mul_le_mul_left _ (Nat.pow_le_pow_right (by omega) (by omega))
  have hnpos : 0 < n * 10 ^ w := by
    refine Nat.mul_pos (Nat.pos_of_ne_zero ?_) (Nat.pow_pos (by omega))
    rintro rfl
    exact hnames.digits_ne_zero (by rw [← hn, Nat.zero_mul])
  refine ⟨by omega, scale_of_names hm hpos hnames ⟨by omega, by omega⟩ (by omega) ?_⟩
  have hpow : 10 ^ zeros * 10 ^ d.exponent.toNat = 10 ^ w * 10 ^ (-d.exponent).toNat := by
    rw [← Nat.pow_add, ← Nat.pow_add, show zeros + d.exponent.toNat = w + (-d.exponent).toNat by
      omega]
  calc d.digits * 10 ^ d.exponent.toNat * 10 ^ 1
      = n * (10 ^ zeros * 10 ^ d.exponent.toNat) * 10 := by rw [← hn]; ring
    _ = n * 10 ^ w * 10 * d.den := by rw [hpow, Decimal.den]; ring

end Short

section Layouts

variable {negative : Bool} {n : Nat} (hdigits : Nat.ofDigitChars 10 digits 0 = n)

include hdigits

/-- Zeros stand between the point and the digits. -/
lemma value_of_zeros_before (hfits : n < UInt64.size) (before : Nat) :
    (Literal.mk negative ['0'] (some (List.replicate before '0' ++ digits)) none).value =
      scaledNumber negative
        (scale 4 (Binary64.magnitudeOfNat n) (-((before + digits.length : Nat) : Int))) := by
  have hlist : Nat.ofDigitChars 10 (['0'] ++ (List.replicate before '0' ++ digits)) 0 = n := by
    simp [Nat.ofDigitChars_append, Nat.ofDigitChars_replicate_zero, Nat.ofDigitChars_cons, hdigits]
  rw [value_of_point hlist hfits, List.length_append, List.length_replicate]

/-- The digits and some zeros stand before the point. -/
lemma value_of_zeros_after {w : Nat} (hfits : n * 10 ^ w * 10 < UInt64.size) :
    (Literal.mk negative (digits ++ List.replicate w '0') (some ['0']) none).value =
      scaledNumber negative
        (scale 4 (Binary64.magnitudeOfNat (n * 10 ^ w * 10)) (-((1 : Nat) : Int))) := by
  have hlist : Nat.ofDigitChars 10 (digits ++ List.replicate w '0' ++ ['0']) 0 =
      n * 10 ^ w * 10 := by
    simp [Nat.ofDigitChars_append, Nat.ofDigitChars_replicate_zero, Nat.ofDigitChars_cons, hdigits,
      Nat.mul_comm]
  rw [value_of_point hlist hfits, List.length_singleton]

/-- The point stands between two of the digits. -/
lemma value_of_point_within (hfits : n < UInt64.size) (place : Nat) :
    (Literal.mk negative (digits.take place) (some (digits.drop place)) none).value =
      scaledNumber negative
        (scale 4 (Binary64.magnitudeOfNat n) (-((digits.length - place : Nat) : Int))) := by
  have hlist : Nat.ofDigitChars 10 (digits.take place ++ digits.drop place) 0 = n := by
    rw [List.take_append_drop, hdigits]
  rw [value_of_point hlist hfits, List.length_drop]

/-- The point stands behind the first digit, and an exponent is written. -/
lemma value_of_first_digit (hfits : n < UInt64.size) {e : Int}
    (hsmall : digits.length - 1 + e.natAbs ≤ exponentLimit) :
    (Literal.mk negative (digits.take 1)
        (if digits.length ≤ 1 then none else some (digits.drop 1))
        (some (decide (e < 0), Nat.toDigits 10 e.natAbs))).value =
      scaledNumber negative
        (scale 4 (Binary64.magnitudeOfNat n) (e - ((digits.length - 1 : Nat) : Int))) := by
  have htail : (if digits.length ≤ 1 then none else some (digits.drop 1)).getD [] =
      digits.drop 1 := by
    split
    · rename_i hone
      rw [List.drop_eq_nil_of_le hone]
      rfl
    · rfl
  have hlist : Nat.ofDigitChars 10 (digits.take 1 ++
      (if digits.length ≤ 1 then none else some (digits.drop 1)).getD []) 0 = n := by
    rw [htail, List.take_append_drop, hdigits]
  rw [value_of_exponent hlist hfits (by rw [htail, List.length_drop]; exact hsmall), htail,
    List.length_drop]

end Layouts

/-- **What is written for a short decimal is read as the number that the decimal names.** -/
theorem value_ofDigits (negative : Bool) {m : Nat} (hm : m < Binary64.infiniteMagnitude)
    (hpos : 0 < m) (hnames : d.Names m) (hshort : d.IsShort) (hsignificant : IsSignificant digits)
    (h : Nat.toDigits 10 d.digits = digits ++ List.replicate zeros '0') :
    (ofDigits negative digits (digits.length + zeros + d.exponent)).value =
      .ok (.float (Binary64.ofMagnitude negative m)) := by
  have hpoint := point_of_short hshort hnames.digits_ne_zero h
  have hlength : 0 < digits.length := List.length_pos_iff.2 hsignificant.numeral.ne_nil
  have hexponent := hshort.exponent
  have hn := ofDigitChars_significant h
  have hsize : 2 ^ 53 < UInt64.size := by decide
  -- either the last digit is behind the point, or all digits are before it
  have hfraction := fun k => @scale_fraction d zeros m _ hm hpos hnames hshort hn k
  have hwhole := fun w => @scale_whole d zeros m _ hm hpos hnames hshort hn w
  generalize hdigits : Nat.ofDigitChars 10 digits 0 = n at hfraction hwhole
  generalize hplace : (digits.length : Int) + zeros + d.exponent = point at hpoint
  unfold ofDigits
  split
  · split
    · obtain ⟨hfits, hscale⟩ := hfraction ((-point).toNat + digits.length) (by omega) (by omega)
      rw [value_of_zeros_before hdigits (by omega), hscale]
      rfl
    split
    · obtain ⟨hfits, hscale⟩ := hwhole (point.toNat - digits.length) (by omega)
      rw [value_of_zeros_after hdigits (by omega), hscale]
      rfl
    · obtain ⟨hfits, hscale⟩ := hfraction (digits.length - point.toNat) (by omega) (by omega)
      rw [value_of_point_within hdigits (by omega), hscale]
      rfl
  · rename_i hpositional
    have hfar : point ≤ -5 := by
      simp only [numberLayout, Bool.and_eq_true, decide_eq_true_eq] at hpositional
      omega
    have hsmall : digits.length - 1 + (point - 1).natAbs ≤ exponentLimit := by
      rw [exponentLimit]
      omega
    obtain ⟨k, hk⟩ : ∃ k : Nat, zeros + d.exponent = -(k : Int) :=
      ⟨(-(zeros + d.exponent)).toNat, by omega⟩
    obtain ⟨hfits, hscale⟩ := hfraction k (by omega) hk
    have hbehind : point - 1 - ((digits.length - 1 : Nat) : Int) = -(k : Int) := by omega
    rw [value_of_first_digit hdigits (by omega) hsmall, hbehind, hscale]
    rfl

theorem value_of_short {x : Binary64} (hfinite : x.isFinite = true)
    (hshort : x.magnitude ≠ 0 → (Binary64.shortest .even x.magnitude).IsShort) :
    (ofBinary64 x).value = .ok (.float x) := by
  unfold ofBinary64
  split
  · rename_i hzero
    have hlist : Nat.ofDigitChars 10 (['0'] ++ ['0']) 0 = 0 := rfl
    rw [value_of_point hlist (by decide)]
    have hscale : scale 4 (Binary64.magnitudeOfNat 0) (-((['0'].length : Nat) : Int)) = some 0 := by
      decide +kernel
    rw [hscale, scaledNumber, ← hzero, ofMagnitude_magnitude]
  · rename_i hne
    have hpos := Nat.pos_of_ne_zero hne
    have hnames := Binary64.shortest_names .even hpos
    obtain ⟨digits, zeros, hspec, hsignificant, hdigits⟩ :=
      digitsAndPoint_spec hnames.digits_ne_zero
    rw [hspec]
    refine (value_ofDigits _ (Binary64.isFinite_iff.1 hfinite) hpos hnames (hshort hne)
      hsignificant hdigits).trans ?_
    rw [ofMagnitude_magnitude]

end Literal

/-- **Numbers with short decimals are read back.** -/
theorem reread_of_short {x : Binary64} (hfinite : x.isFinite = true)
    (hshort : x.magnitude ≠ 0 → (Binary64.shortest .even x.magnitude).IsShort) :
    reread x = .ok x := by
  rw [reread, (readsAs_finite hfinite).readWhole, Literal.value_of_short hfinite hshort]
  rfl

/-- **Whole numbers are read back** as long as they fit into fifty-three bits with one more
digit. -/
theorem reread_ofInt {n : Nat} (h : 10 * n < 2 ^ 53) :
    reread (Binary64.ofInt n) = .ok (Binary64.ofInt n) := by
  have hone := Binary64.unitsPerOne_pos
  have hof : Binary64.ofInt n = Binary64.ofMagnitude false (Binary64.magnitudeOfNat n) := by
    have habs : ((n : Int) * Binary64.unitsPerOne).natAbs = n * Binary64.unitsPerOne := by
      rw [Int.natAbs_mul]
      rfl
    have hsign : ¬ (n : Int) * Binary64.unitsPerOne < 0 :=
      Int.not_lt.2 (Int.mul_nonneg (Int.natCast_nonneg _) (Int.natCast_nonneg _))
    rw [Binary64.ofInt, Binary64.ofUnits, habs, decide_eq_false hsign, ite_self]
    rfl
  rcases Nat.eq_zero_or_pos n with rfl | hpos
  · rw [hof]
    refine reread_of_short (by decide +kernel) ?_
    intro hne
    exact absurd (by decide +kernel) hne
  · obtain ⟨hunits, hmpos, hm⟩ := Binary64.unitsOf_magnitudeOfNat hpos (show n < 2 ^ 53 by omega)
    have hmagnitude : (Binary64.ofInt n).magnitude = Binary64.magnitudeOfNat n := by
      rw [hof, Binary64.magnitude_ofMagnitude hm.le]
    refine reread_of_short (Binary64.isFinite_iff.2 (hmagnitude ▸ hm)) ?_
    intro _
    rw [hmagnitude]
    have hwhole : 0 ≤ (Binary64.shortest .even (Binary64.magnitudeOfNat n)).exponent ∧ _ :=
      Binary64.shortest_whole hpos (by omega) hmpos hunits
    obtain ⟨hexponent, hdigits⟩ := hwhole
    exact ⟨by rw [hdigits]; exact h, by omega⟩

end Json

end PartitionKeys
