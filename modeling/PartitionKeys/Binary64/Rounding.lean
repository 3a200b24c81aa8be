/-
# Exact values and rounding

Every finite number is a whole multiple of the smallest positive one, `2 ^ -1074`, which is
called the *unit* here.  Arithmetic takes operands to whole units, computes exactly, and
rounds once: to nearest, a tie to the even neighbour.  A magnitude and its neighbours are
consecutive integers, so that rounding is one division.
-/
import PartitionKeys.Binary64.Basic

namespace PartitionKeys

namespace Binary64

/-- The value of a magnitude in units.  Magnitudes below `2 ^ 52` have no leading bit of
their own; each further block of `2 ^ 52` magnitudes doubles the step. -/
def unitsOf (m : Nat) : Nat :=
  if m < 0x10000000000000 then m
  else (0x10000000000000 + m % 0x10000000000000) <<< (m / 0x10000000000000 - 1)

/-- The value of a finite number in units, with its sign. -/
def units (x : Binary64) : Int :=
  if x.isNegative then -(unitsOf x.magnitude : Int) else unitsOf x.magnitude

/-- A quotient rounded to the nearest integer, a tie to the even one. -/
def roundEven (num den : Nat) : Nat :=
  let q := num / den
  let twice := 2 * (num % den)
  if den < twice ∨ (twice = den ∧ q % 2 = 1) then q + 1 else q

/-- The magnitude nearest to `num / den` units.  The quotient is cut to fifty-three bits; a
carry out of them moves into the exponent by itself, and what is too large becomes
infinite. -/
def nearestMagnitude (num den : Nat) : Nat :=
  let surplus := (num / den).log2 - 52
  min infiniteMagnitude (surplus * 0x10000000000000 + roundEven num (den <<< surplus))

/-- One, in units. -/
def unitsPerOne : Nat := 1 <<< 1074

/-- The number nearest to a whole number of units; `negativeZero` chooses the sign of zero. -/
def ofUnits (negativeZero : Bool) (z : Int) : Binary64 :=
  ofMagnitude (if z = 0 then negativeZero else decide (z < 0)) (nearestMagnitude z.natAbs 1)

/-- The number nearest to an integer. -/
def ofInt (n : Int) : Binary64 := ofUnits false (n * unitsPerOne)

/-- The difference of two numbers, rounded.  A zero difference is positive, except that
`-0` less `+0` is `-0`; infinities of one sign have no difference. -/
def sub (x y : Binary64) : Binary64 :=
  if x.isNaN || y.isNaN then nan
  else if x.magnitude = infiniteMagnitude then
    if y.magnitude = infiniteMagnitude ∧ x.isNegative = y.isNegative then nan else x
  else if y.magnitude = infiniteMagnitude then y.neg
  else ofUnits (x.isNegative && !y.isNegative) (x.units - y.units)

instance : Sub Binary64 := ⟨sub⟩

/-! ## Magnitudes scaled by powers of ten -/

/-- The product of two finite magnitudes, rounded. -/
def mulMagnitude (m n : Nat) : Nat := nearestMagnitude (unitsOf m * unitsOf n) unitsPerOne

/-- The quotient of two finite magnitudes, rounded; the divisor is not zero. -/
def divMagnitude (m n : Nat) : Nat := nearestMagnitude (unitsOf m * unitsPerOne) (unitsOf n)

/-- The magnitude nearest to a natural number. -/
def magnitudeOfNat (n : Nat) : Nat := nearestMagnitude (n * unitsPerOne) 1

end Binary64

end PartitionKeys
