/-
# Seventeen digits always suffice

The decimal that is written for a number lies among the reals that round to it.  One is always
found: on the grid with seventeen digits a step is shorter than the distance between the two
middles, so that one of the value's neighbours lies between them.  A whole number below
`2 ^ 53` is its own shortest decimal, up to zeros at the end, since the middles around it are
less than one apart.
-/
import PartitionKeys.Proofs.Binary64.Nearest

namespace PartitionKeys

/-! ## Decimals as quotients of half units -/

namespace Decimal

/-- The numerator of a decimal in half units. -/
def num (d : Decimal) : Nat := d.digits * (2 * Binary64.unitsPerOne * 10 ^ d.exponent.toNat)

/-- The denominator of a decimal in half units. -/
def den (d : Decimal) : Nat := 10 ^ (-d.exponent).toNat

/-- The next decimal on the same grid. -/
def next (d : Decimal) : Decimal := ⟨d.digits + 1, d.exponent⟩

/-- A positive decimal that lies among the reals that round to a magnitude. -/
structure Names (d : Decimal) (m : Nat) : Prop where
  digits_ne_zero : d.digits ≠ 0
  contains : (Binary64.roundings m).Contains d.num d.den

end Decimal

namespace Binary64

variable {m n : Nat} {tie : TieRule}

/-- So often the unit is doubled to one. -/
def unitExponent : Nat := 1074

lemma unitsPerOne_eq : unitsPerOne = 2 ^ unitExponent :=
  (Nat.shiftLeft_eq 1 unitExponent).trans (Nat.one_mul _)

lemma unitsPerOne_pos : 0 < unitsPerOne := by
  rw [unitsPerOne_eq]
  exact Nat.two_pow_pos _

/-! ## The neighbours on a grid -/

namespace Roundings

/-- The test of the search: whether a decimal lies among the reals that round to a number. -/
def admits (r : Roundings) (d : Decimal) : Bool :=
  if r.closed then decide (r.low * d.den ≤ d.num) && decide (d.num ≤ r.high * d.den)
  else decide (r.low * d.den < d.num) && decide (d.num < r.high * d.den)

lemma admits_iff {r : Roundings} {d : Decimal} : r.admits d = true ↔ r.Contains d.num d.den := by
  unfold admits Contains
  split
  · rename_i hclosed
    simp [hclosed]
  · rename_i hopen
    simp [hopen]
    omega

/-- The last decimal of a grid that is not above the value. -/
def floor (r : Roundings) (exponent : Int) : Decimal where
  digits := r.value * 10 ^ (-exponent).toNat / (2 * unitsPerOne * 10 ^ exponent.toNat)
  exponent := exponent

end Roundings

/-- The search in terms of the two neighbours. -/
lemma onGrid?_eq (r : Roundings) (exponent : Int) :
    onGrid? tie r exponent =
      match r.admits (r.floor exponent) && (r.floor exponent).digits != 0,
        r.admits (r.floor exponent).next with
      | true, true =>
        match compare (2 * (r.value * (r.floor exponent).den))
          ((2 * (r.floor exponent).digits + 1) * (2 * unitsPerOne * 10 ^ exponent.toNat)), tie with
        | .lt, _ => some (r.floor exponent)
        | .gt, _ => some (r.floor exponent).next
        | .eq, .up => some (r.floor exponent).next
        | .eq, .even =>
          some (if (r.floor exponent).digits % 2 = 0 then r.floor exponent
            else (r.floor exponent).next)
      | true, false => some (r.floor exponent)
      | false, true => some (r.floor exponent).next
      | false, false => none := rfl

/-- What is found on a grid names the number. -/
lemma onGrid?_names {exponent : Int} {d : Decimal}
    (h : onGrid? tie (roundings m) exponent = some d) : d.exponent = exponent ∧ d.Names m := by
  rw [onGrid?_eq] at h
  generalize hfloor : (roundings m).floor exponent = f at h
  obtain rfl : f.exponent = exponent := hfloor ▸ rfl
  have hbelow : ((roundings m).admits f && f.digits != 0) = true →
      f.exponent = f.exponent ∧ f.Names m := by
    intro hadmits
    rw [Bool.and_eq_true, Roundings.admits_iff, bne_iff_ne] at hadmits
    exact ⟨rfl, hadmits.2, hadmits.1⟩
  have habove : (roundings m).admits f.next = true →
      f.next.exponent = f.exponent ∧ f.next.Names m :=
    fun hadmits => ⟨rfl, Nat.succ_ne_zero _, Roundings.admits_iff.1 hadmits⟩
  split at h
  case h_1 hlow hhigh =>
    split at h
    case h_1 => cases h; exact hbelow hlow
    case h_2 => cases h; exact habove hhigh
    case h_3 => cases h; exact habove hhigh
    case h_4 =>
      split at h
      · cases h; exact hbelow hlow
      · cases h; exact habove hhigh
  case h_2 hlow hhigh => cases h; exact hbelow hlow
  case h_3 hlow hhigh => cases h; exact habove hhigh
  case h_4 => cases h

/-- Something is found on a grid if one of the two neighbours will do. -/
lemma onGrid?_isSome {r : Roundings} {exponent : Int} {f : Decimal} (hf : r.floor exponent = f)
    (hne : f.digits ≠ 0)
    (h : r.Contains f.num f.den ∨ r.Contains f.next.num f.next.den) :
    (onGrid? tie r exponent).isSome = true := by
  rw [onGrid?_eq, hf]
  have hadmits : (r.admits f && f.digits != 0) = true ∨ r.admits f.next = true := by
    rw [Bool.and_eq_true, bne_iff_ne, Roundings.admits_iff, Roundings.admits_iff]
    exact h.imp_left fun hbelow => ⟨hbelow, hne⟩
  split
  case h_1 =>
    split
    case h_4 => rfl
    all_goals rfl
  case h_2 => rfl
  case h_3 => rfl
  case h_4 hlow hhigh =>
    rw [hlow, hhigh] at hadmits
    simp at hadmits

/-! ## The search over all grids -/

/-- The first hit of a search is not later than any hit. -/
lemma findSome?_range {β : Type} {f : Nat → Option β} {k : Nat} (hk : k < n)
    (h : (f k).isSome = true) :
    ∃ i ≤ k, ∃ b, f i = some b ∧ (List.range n).findSome? f = some b := by
  have hfound : ((List.range n).findSome? f).isSome = true :=
    List.findSome?_isSome_iff.2 ⟨k, List.mem_range.2 hk, h⟩
  obtain ⟨b, hb⟩ := Option.isSome_iff_exists.1 hfound
  obtain ⟨before, i, behind, hrange, hi, hbefore⟩ := List.findSome?_eq_some_iff.1 hb
  refine ⟨i, ?_, b, hi, hb⟩
  have hmem : k ∈ before ++ i :: behind := hrange ▸ List.mem_range.2 hk
  have hsorted : (before ++ i :: behind).Pairwise (· < ·) := hrange ▸ List.pairwise_lt_range
  rcases List.mem_append.1 hmem with hmem | hmem
  · rw [hbefore k hmem] at h
    cases h
  · rcases List.mem_cons.1 hmem with rfl | hmem
    · exact Nat.le_refl _
    · exact ((List.pairwise_cons.1 (List.pairwise_append.1 hsorted).2.1).1 k hmem).le

/-- If there is a decimal on one of the grids, the shortest one has no more digits than it. -/
lemma shortest_of_isSome {k : Nat} (hk : k < 17)
    (h : (onGrid? tie (roundings m) (leadingPlace (roundings m).value - (k + 1))).isSome = true) :
    leadingPlace (roundings m).value - (k + 1) ≤ (shortest tie m).exponent ∧
      (shortest tie m).Names m := by
  let search : Nat → Option Decimal := fun k =>
    onGrid? tie (roundings m) (leadingPlace (roundings m).value - (k + 1))
  obtain ⟨i, hi, d, hd, hfound⟩ := findSome?_range (f := search) hk h
  have hshortest : shortest tie m = d := by
    show ((List.range 17).findSome? search).getD ⟨0, 0⟩ = d
    rw [hfound]
    rfl
  obtain ⟨hexponent, hnames⟩ := onGrid?_names hd
  rw [hshortest]
  refine ⟨?_, hnames⟩
  omega

/-! ## The leading digit -/

lemma pow_le_of_digitCount {q k : Nat} (hq : 0 < q) (h : digitCount q = k) :
    10 ^ (k - 1) ≤ q := by
  subst h
  rcases Nat.eq_zero_or_pos (digitCount q - 1) with hzero | hpos
  · rw [hzero, Nat.pow_zero]
    exact hq
  · by_contra hlt
    have := (Nat.length_toDigits_le_iff (by omega) hpos).2 (Nat.lt_of_not_le hlt)
    have hlength : 0 < digitCount q := Nat.length_toDigits_pos
    unfold digitCount at hlength hpos this
    omega

lemma digitCount_eq {q k : Nat} (hlow : 10 ^ k ≤ q) (hhigh : q < 10 ^ (k + 1)) :
    digitCount q = k + 1 := by
  have hle : digitCount q ≤ k + 1 := (Nat.length_toDigits_le_iff (by omega) (by omega)).2 hhigh
  rcases Nat.eq_zero_or_pos k with rfl | hpos
  · have hlength : 0 < digitCount q := Nat.length_toDigits_pos
    omega
  · have hnot : ¬ digitCount q ≤ k := by
      intro hk
      have := (Nat.length_toDigits_le_iff (by omega) hpos).1 hk
      omega
    omega

/-- The digits that are counted lie so far behind the point. -/
def placeOffset : Nat := 324

lemma leadingPlace_eq (value : Nat) :
    leadingPlace value =
      (digitCount (value * 10 ^ placeOffset / (2 * unitsPerOne)) : Int) - placeOffset := by
  -- the power is written out nowhere, so that it is not evaluated either
  have hoffset : 324 = placeOffset := rfl
  have hplace : (324 : Int) = placeOffset := rfl
  rw [leadingPlace, hplace, hoffset, Nat.pow_eq]

/-- Even the smallest number has a digit that is counted. -/
lemma counted_pos (hpos : 0 < m) :
    0 < (roundings m).value * 10 ^ placeOffset / (2 * unitsPerOne) := by
  have hunits : 1 ≤ unitsOf m := by
    have := unitsOf_mono hpos
    exact this
  have hlarge : unitsPerOne ≤ 10 ^ placeOffset := by decide +kernel
  refine Nat.div_pos ?_ (Nat.mul_pos (by omega) unitsPerOne_pos)
  calc 2 * unitsPerOne ≤ 2 * 10 ^ placeOffset := Nat.mul_le_mul_left 2 hlarge
    _ ≤ 2 * unitsOf m * 10 ^ placeOffset := Nat.mul_le_mul_right _ (by omega)

/-- On the grid with `n + 1` digits, the value has `n` digits behind its leading one. -/
lemma scale_leading {k a b n step value offset : Nat}
    (h : 10 ^ (k - 1) * step ≤ value * 10 ^ offset) (hk : 0 < k)
    (hexponent : k + b = offset + (n + 1) + a) :
    10 ^ n * (step * 10 ^ a) ≤ value * 10 ^ b := by
  refine Nat.le_of_mul_le_mul_left ?_ (Nat.pow_pos (n := offset) (show 0 < 10 by omega))
  calc 10 ^ offset * (10 ^ n * (step * 10 ^ a)) = 10 ^ (offset + n + a) * step := by
        rw [Nat.pow_add, Nat.pow_add]; ring
    _ = 10 ^ b * (10 ^ (k - 1) * step) := by
        rw [show offset + n + a = b + (k - 1) by omega, Nat.pow_add]; ring
    _ ≤ 10 ^ b * (value * 10 ^ offset) := Nat.mul_le_mul_left _ h
    _ = 10 ^ offset * (value * 10 ^ b) := by ring

/-- The leading digit of a value is at its place. -/
lemma floor_leading (hpos : 0 < m) (n : Nat) :
    10 ^ n ≤ ((roundings m).floor (leadingPlace (roundings m).value - (n + 1))).digits := by
  have hcounted := counted_pos hpos
  rw [leadingPlace_eq]
  generalize hk :
    digitCount ((roundings m).value * 10 ^ placeOffset / (2 * unitsPerOne)) = k
  have hkpos : 0 < k := hk ▸ Nat.length_toDigits_pos
  have hlead := pow_le_of_digitCount hcounted hk
  rw [Nat.le_div_iff_mul_le (Nat.mul_pos (by omega) unitsPerOne_pos)] at hlead
  have hstep : 0 < 2 * unitsPerOne * 10 ^ (((k : Int) - placeOffset - (n + 1)).toNat) :=
    Nat.mul_pos (Nat.mul_pos (by omega) unitsPerOne_pos) (Nat.pow_pos (by omega))
  show 10 ^ n ≤ _ / _
  rw [Nat.le_div_iff_mul_le hstep]
  exact scale_leading hlead hkpos (by omega)

/-! ## The distance between the middles -/

/-- The value lies between the middles, which are far enough apart for seventeen digits. -/
lemma roundings_wide (hpos : 0 < m) :
    (roundings m).low < (roundings m).value ∧ (roundings m).value < (roundings m).high ∧
      (roundings m).value + 10 ^ 16 * (roundings m).low < 10 ^ 16 * (roundings m).high := by
  rcases roundings_cases hpos with ⟨s, k, ⟨hvalue, hlow, hhigh⟩, -, hk, -⟩ | ⟨s, rfl⟩
  · have hstep := Nat.two_pow_pos s
    have hmul : k * 2 ^ s ≤ 2 ^ 53 * 2 ^ s := Nat.mul_le_mul_right _ hk.le
    omega
  · obtain ⟨hvalue, hlow, hhigh⟩ := roundings_first s
    have hstep := Nat.two_pow_pos s
    omega

/-! ## The shortest decimal -/

/-- One of two neighbours lies between two middles that are further apart than they are. -/
lemma contains_of_wide {r : Roundings} {d : Decimal} {step : Nat}
    (hstep : d.next.num = d.num + step) (hlow : r.low < r.value) (hhigh : r.value < r.high)
    (hbelow : d.num ≤ r.value * d.den) (habove : r.value * d.den < d.num + step)
    (hwide : step + r.low * d.den < r.high * d.den) :
    r.Contains d.num d.den ∨ r.Contains d.next.num d.next.den := by
  have hden : 0 < d.den := Nat.pow_pos (by omega)
  have hlow' : r.low * d.den < r.value * d.den := Nat.mul_lt_mul_of_pos_right hlow hden
  have hhigh' : r.value * d.den < r.high * d.den := Nat.mul_lt_mul_of_pos_right hhigh hden
  have hnext : d.next.den = d.den := rfl
  unfold Roundings.Contains
  rw [hnext, hstep]
  rcases Nat.lt_or_ge (r.low * d.den) d.num with h | h
  · exact .inl ⟨h.le, by omega, .inr ⟨h, by omega⟩⟩
  · exact .inr ⟨by omega, by omega, .inr ⟨by omega, by omega⟩⟩

/-- **Seventeen digits suffice**: the decimal that is written names its number. -/
theorem shortest_names (tie : TieRule) (hpos : 0 < m) : (shortest tie m).Names m := by
  have hlead := floor_leading hpos 16
  generalize hexponent : leadingPlace (roundings m).value - ((16 : Nat) + 1 : Int) = exponent
    at hlead
  generalize hfloor : (roundings m).floor exponent = f at hlead
  obtain ⟨hlow, hhigh, hwide⟩ := roundings_wide hpos
  have hstep : 0 < 2 * unitsPerOne * 10 ^ exponent.toNat :=
    Nat.mul_pos (Nat.mul_pos (by omega) unitsPerOne_pos) (Nat.pow_pos (by omega))
  have hden : f.den = 10 ^ (-exponent).toNat := hfloor ▸ rfl
  have hnum : f.num = f.digits * (2 * unitsPerOne * 10 ^ exponent.toNat) := hfloor ▸ rfl
  have hnext : f.next.num = f.num + 2 * unitsPerOne * 10 ^ exponent.toNat := by
    have : f.next.num = (f.digits + 1) * (2 * unitsPerOne * 10 ^ exponent.toNat) := hfloor ▸ rfl
    rw [this, hnum, Nat.succ_mul]
  have hdigits : f.digits =
      (roundings m).value * f.den / (2 * unitsPerOne * 10 ^ exponent.toNat) := by
    rw [hden]
    exact hfloor ▸ rfl
  generalize 2 * unitsPerOne * 10 ^ exponent.toNat = step at hstep hnum hnext hdigits
  have hdiv := Nat.div_add_mod ((roundings m).value * f.den) step
  have hmod := Nat.mod_lt ((roundings m).value * f.den) hstep
  rw [← hdigits, Nat.mul_comm, ← hnum] at hdiv
  -- the step is less than the distance between the middles
  have hmiddles : step + (roundings m).low * f.den < (roundings m).high * f.den := by
    have hscaled : 10 ^ 16 * step ≤ (roundings m).value * f.den := by
      calc 10 ^ 16 * step ≤ f.digits * step := Nat.mul_le_mul_right _ hlead
        _ ≤ (roundings m).value * f.den := by omega
    have hpow : 0 < f.den := by
      rw [hden]
      exact Nat.pow_pos (by omega)
    have := Nat.mul_lt_mul_of_pos_right hwide hpow
    rw [Nat.add_mul, Nat.mul_assoc, Nat.mul_assoc] at this
    omega
  have hcontains := contains_of_wide hnext hlow hhigh (by omega) (by omega) hmiddles
  refine (shortest_of_isSome (show 16 < 17 by omega) ?_).2
  rw [hexponent]
  exact onGrid?_isSome hfloor (by omega) hcontains

/-! ## Whole numbers -/

section Whole

/-- A whole number of fifty-three bits is a magnitude. -/
lemma exists_unitsOf_eq (hpos : 0 < n) (h : n < 2 ^ 53) :
    ∃ m < infiniteMagnitude, 0 < m ∧ unitsOf m = n * unitsPerOne := by
  have hlog : n.log2 ≤ 52 := by
    have := (Nat.log2_lt hpos.ne').2 h
    omega
  obtain ⟨hlow, hhigh⟩ := (Nat.log2_eq_iff hpos.ne').1 rfl
  generalize n.log2 = b at hlog hlow hhigh
  have hpow : 2 ^ b * 2 ^ (52 - b) = 2 ^ 52 := by
    rw [← Nat.pow_add, show b + (52 - b) = 52 by omega]
  have hlead : 2 ^ 52 ≤ n * 2 ^ (52 - b) := by
    rw [← hpow]
    exact Nat.mul_le_mul_right _ hlow
  have hbound : n * 2 ^ (52 - b) < 2 ^ 53 := by
    calc n * 2 ^ (52 - b) < 2 ^ (b + 1) * 2 ^ (52 - b) :=
          Nat.mul_lt_mul_of_pos_right hhigh (Nat.two_pow_pos _)
      _ = 2 ^ 53 := by rw [Nat.pow_succ, Nat.mul_right_comm, hpow]; rfl
  have hsplit : 2 ^ unitExponent = 2 ^ (unitExponent - (52 - b)) * 2 ^ (52 - b) := by
    have hle : 52 ≤ unitExponent := by decide
    rw [← Nat.pow_add, show unitExponent - (52 - b) + (52 - b) = unitExponent by omega]
  refine ⟨(unitExponent - (52 - b) + 1) * 2 ^ 52 + (n * 2 ^ (52 - b) - 2 ^ 52), ?_, by omega, ?_⟩
  · unfold unitExponent infiniteMagnitude
    omega
  · rw [unitsOf_binade (by omega), unitsPerOne_eq, hsplit,
      show 2 ^ 52 + (n * 2 ^ (52 - b) - 2 ^ 52) = n * 2 ^ (52 - b) by omega]
    ring

/-- Whole numbers of fifty-three bits are exact. -/
theorem unitsOf_magnitudeOfNat (hpos : 0 < n) (h : n < 2 ^ 53) :
    unitsOf (magnitudeOfNat n) = n * unitsPerOne ∧ 0 < magnitudeOfNat n ∧
      magnitudeOfNat n < infiniteMagnitude := by
  obtain ⟨m, hm, hmpos, hunits⟩ := exists_unitsOf_eq hpos h
  have hexact : magnitudeOfNat n = m := by
    rw [magnitudeOfNat, ← hunits, nearestMagnitude_unitsOf hm]
  rw [hexact]
  exact ⟨hunits, hmpos, hm⟩

variable (hpos : 0 < n) (hsmall : n < 2 ^ 53) (hm : 0 < m) (hunits : unitsOf m = n * unitsPerOne)

include hunits in
lemma value_whole : (roundings m).value = n * (2 * unitsPerOne) := by
  show 2 * unitsOf m = _
  rw [hunits, Nat.mul_left_comm]

include hsmall hm hunits in
/-- The middles around a whole number are less than one away. -/
lemma roundings_whole : n * (2 * unitsPerOne) < (roundings m).low + 2 * unitsPerOne ∧
    (roundings m).high < n * (2 * unitsPerOne) + 2 * unitsPerOne := by
  have hone := unitsPerOne_pos
  have hwhole := value_whole hunits
  have hbound : n * (2 * unitsPerOne) < 2 ^ 53 * (2 * unitsPerOne) :=
    Nat.mul_lt_mul_of_pos_right hsmall (by omega)
  rcases roundings_cases hm with ⟨s, k, ⟨hvalue, hlow, hhigh⟩, -, -, hbinade⟩ | ⟨s, rfl⟩
  · have hstep : 2 ^ s < 2 * unitsPerOne := by
      rcases hbinade with rfl | hlarge
      · rw [Nat.pow_zero]
        omega
      · have hmul : 2 ^ 52 * 2 ^ s ≤ k * 2 ^ s := Nat.mul_le_mul_right _ hlarge.le
        omega
    omega
  · obtain ⟨hvalue, hlow, hhigh⟩ := roundings_first s
    omega

include hpos hunits in
/-- The leading digit of a whole number. -/
lemma leadingPlace_whole : leadingPlace (roundings m).value = digitCount n := by
  rw [leadingPlace_eq, value_whole hunits, Nat.mul_right_comm,
    Nat.mul_div_cancel _ (Nat.mul_pos (by omega) unitsPerOne_pos)]
  obtain ⟨k, hk⟩ : ∃ k, digitCount n = k + 1 :=
    ⟨digitCount n - 1, by have : 0 < digitCount n := Nat.length_toDigits_pos; omega⟩
  have hlow : 10 ^ k ≤ n := by simpa [hk] using pow_le_of_digitCount hpos hk
  have hhigh : n < 10 ^ (k + 1) := (Nat.length_toDigits_le_iff (by omega) (by omega)).1 hk.le
  have hcount : digitCount (n * 10 ^ placeOffset) = k + placeOffset + 1 := by
    refine digitCount_eq ?_ ?_
    · rw [Nat.pow_add]
      exact Nat.mul_le_mul_right _ hlow
    · rw [show k + placeOffset + 1 = k + 1 + placeOffset by omega, Nat.pow_add _ (k + 1)]
      exact Nat.mul_lt_mul_of_pos_right hhigh (Nat.pow_pos (by omega))
  rw [hcount, hk]
  omega

include hm hunits in
lemma contains_whole : (roundings m).Contains (Decimal.num ⟨n, 0⟩) (Decimal.den ⟨n, 0⟩) := by
  obtain ⟨hlow, hhigh, -⟩ := roundings_wide hm
  rw [value_whole hunits] at hlow hhigh
  have hnum : Decimal.num ⟨n, 0⟩ = n * (2 * unitsPerOne) := by simp [Decimal.num]
  have hden : Decimal.den ⟨n, 0⟩ = 1 := rfl
  rw [hnum, hden, Roundings.Contains, Nat.mul_one, Nat.mul_one]
  exact ⟨hlow.le, hhigh.le, .inr ⟨hlow, hhigh⟩⟩

include hsmall hm hunits in
/-- A decimal without a fraction that names a whole number is this number: the next ones are too
far away. -/
lemma eq_of_names_whole {d : Decimal} (hexponent : 0 ≤ d.exponent) (hnames : d.Names m) :
    d.digits * 10 ^ d.exponent.toNat = n := by
  have hone := unitsPerOne_pos
  obtain ⟨hlow, hhigh, -⟩ := hnames.contains
  have hden : d.den = 1 := by
    rw [Decimal.den, show (-d.exponent).toNat = 0 by omega, Nat.pow_zero]
  have hnum : d.num = d.digits * 10 ^ d.exponent.toNat * (2 * unitsPerOne) := by
    rw [Decimal.num]
    ring
  obtain ⟨hnear, hnear'⟩ := roundings_whole hsmall hm hunits
  rw [hden, Nat.mul_one, hnum] at hlow hhigh
  generalize d.digits * 10 ^ d.exponent.toNat = w at hlow hhigh
  have hle : n < w + 1 := by
    refine Nat.lt_of_mul_lt_mul_right (a := 2 * unitsPerOne) ?_
    rw [Nat.add_mul, Nat.one_mul]
    omega
  have hge : w < n + 1 := by
    refine Nat.lt_of_mul_lt_mul_right (a := 2 * unitsPerOne) ?_
    rw [Nat.add_mul, Nat.one_mul]
    omega
  omega

include hpos hsmall hm hunits in
/-- **A whole number is its own shortest decimal**, up to zeros at the end. -/
theorem shortest_whole : 0 ≤ (shortest tie m).exponent ∧
    (shortest tie m).digits * 10 ^ (shortest tie m).exponent.toNat = n := by
  obtain ⟨k, hk⟩ : ∃ k, digitCount n = k + 1 :=
    ⟨digitCount n - 1, by have : 0 < digitCount n := Nat.length_toDigits_pos; omega⟩
  have hplace : leadingPlace (roundings m).value - (k + 1) = 0 := by
    rw [leadingPlace_whole hpos hunits, hk]
    omega
  have hlength : k < 17 := by
    have hlead := pow_le_of_digitCount hpos hk
    by_contra hlt
    have : 10 ^ 17 ≤ 10 ^ (k + 1 - 1) := Nat.pow_le_pow_right (by omega) (by omega)
    omega
  have hfloor : (roundings m).floor 0 = ⟨n, 0⟩ := by
    simp [Roundings.floor, value_whole hunits, unitsPerOne_pos]
  have hsome : (onGrid? tie (roundings m) (leadingPlace (roundings m).value - (k + 1))).isSome =
      true := by
    rw [hplace]
    exact onGrid?_isSome hfloor hpos.ne' (.inl (contains_whole hm hunits))
  obtain ⟨hexponent, hnames⟩ := shortest_of_isSome hlength hsome
  rw [hplace] at hexponent
  exact ⟨hexponent, eq_of_names_whole hsmall hm hunits hexponent hnames⟩

end Whole

end Binary64

end PartitionKeys
