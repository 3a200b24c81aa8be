/-
# The fewest digits that name a number

A decimal names a number when it lies among the reals that round to it.  On the grid of
decimals with one digit only the two neighbours of the value can do so best; if neither
does, the grid with two digits is tried, and so on.  Seventeen digits always suffice.
-/
import PartitionKeys.Binary64.Rounding

namespace PartitionKeys

/-- A positive decimal number `digits * 10 ^ exponent`. -/
structure Decimal where
  digits : Nat
  exponent : Int
deriving DecidableEq, Repr

/-- Which of two equally near decimals is taken. -/
inductive TieRule where
  /-- The larger one. -/
  | up
  /-- The one whose last digit is even. -/
  | even
deriving DecidableEq, Repr

namespace Binary64

/-- How many decimal digits a number has. -/
def digitCount (n : Nat) : Nat := (Nat.toDigits 10 n).length

/-- The reals that round to a magnitude, in half units: from the middle between it and its
lower neighbour to the middle between it and its upper neighbour. -/
structure Roundings where
  low : Nat
  value : Nat
  high : Nat
  /-- Whether the two ends belong to it: ties go to even magnitudes. -/
  closed : Bool
deriving DecidableEq, Repr

/-- The reals that round to a positive finite magnitude. -/
def roundings (m : Nat) : Roundings where
  low := unitsOf (m - 1) + unitsOf m
  value := 2 * unitsOf m
  high := unitsOf m + unitsOf (m + 1)
  closed := m % 2 == 0

/-- The least `k` with value below `10 ^ k`: the place of the leading digit. -/
def leadingPlace (value : Nat) : Int :=
  (digitCount (value * Nat.pow 10 324 / (2 * unitsPerOne)) : Int) - 324

/-- The decimal with `n` digits that names the number, if one does: the nearer of the
value's two neighbours on the grid `10 ^ exponent`. -/
def onGrid? (tie : TieRule) (r : Roundings) (exponent : Int) : Option Decimal :=
  let scale := Nat.pow 10 (-exponent).toNat
  let step := 2 * unitsPerOne * Nat.pow 10 exponent.toNat
  let below := r.value * scale / step
  let names (d : Nat) : Bool :=
    if r.closed then decide (r.low * scale ≤ d * step) && decide (d * step ≤ r.high * scale)
    else decide (r.low * scale < d * step) && decide (d * step < r.high * scale)
  let lower : Decimal := ⟨below, exponent⟩
  let upper : Decimal := ⟨below + 1, exponent⟩
  match names below && below != 0, names (below + 1) with
  | true, true =>
    match compare (2 * (r.value * scale)) ((2 * below + 1) * step), tie with
    | .lt, _ => some lower
    | .gt, _ => some upper
    | .eq, .up => some upper
    | .eq, .even => some (if below % 2 = 0 then lower else upper)
  | true, false => some lower
  | false, true => some upper
  | false, false => none

/-- The decimal of fewest digits that names a positive finite magnitude. -/
def shortest (tie : TieRule) (m : Nat) : Decimal :=
  let r := roundings m
  let place := leadingPlace r.value
  ((List.range 17).findSome? fun n : Nat => onGrid? tie r (place - (n + 1))).getD ⟨0, 0⟩

end Binary64

end PartitionKeys
