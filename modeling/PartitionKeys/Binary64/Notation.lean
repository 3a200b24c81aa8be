/-
# Writing numbers

The shortest decimal of a number fixes its digits.  What is left to a format is where
positional notation ends, whether a whole number keeps a point, how an exponent is marked,
and which of two equally near decimals is meant.  A `Layout` holds those choices; the
modules that write numbers each own one.
-/
import PartitionKeys.Binary64.Shortest

namespace PartitionKeys

/-- The choices of a number format. -/
structure Layout where
  /-- Whether a number is written positionally, given the power of ten of its leading digit. -/
  positional : Int → Bool
  /-- Whether a whole number written positionally ends in `.0`. -/
  keepPoint : Bool
  /-- Whether an exponent that is not negative has a plus sign. -/
  plusSign : Bool
  /-- Which of two equally near decimals is written. -/
  tie : TieRule

namespace Layout

/-- The digits of a decimal without trailing zeros, and the place of the point: the value is
`0.digits * 10 ^ point`. -/
def digitsAndPoint (d : Decimal) : List Char × Int :=
  let all := Nat.toDigits 10 d.digits
  ((all.reverse.dropWhile (· == '0')).reverse, all.length + d.exponent)

/-- Digits with the point at a place, padded with zeros where the point lies outside. -/
def positionalText (keepPoint : Bool) (digits : List Char) (point : Int) : List Char :=
  if point ≤ 0 then
    '0' :: '.' :: (List.replicate (-point).toNat '0' ++ digits)
  else if digits.length ≤ point.toNat then
    digits ++ List.replicate (point.toNat - digits.length) '0'
      ++ (if keepPoint then ['.', '0'] else [])
  else
    digits.take point.toNat ++ '.' :: digits.drop point.toNat

/-- Digits with the point after the first one, then the exponent. -/
def exponentText (plusSign : Bool) (digits : List Char) (exponent : Int) : List Char :=
  digits.take 1
    ++ (if digits.length ≤ 1 then [] else '.' :: digits.drop 1)
    ++ 'e' :: (if plusSign && decide (0 ≤ exponent) then ['+'] else [])
    ++ (toString exponent).toList

/-- The text of the absolute value of a finite number. -/
def magnitudeText (layout : Layout) (m : Nat) : List Char :=
  if m = 0 then if layout.keepPoint then ['0', '.', '0'] else ['0']
  else
    let (digits, point) := digitsAndPoint (Binary64.shortest layout.tie m)
    if layout.positional (point - 1) then positionalText layout.keepPoint digits point
    else exponentText layout.plusSign digits (point - 1)

/-- The text of a number; the values that are not finite have names. -/
def text (layout : Layout) (x : Binary64) : String :=
  if x.isNaN then "NaN"
  else
    let sign := if x.isNegative then "-" else ""
    if x.magnitude = Binary64.infiniteMagnitude then sign ++ "inf"
    else sign ++ String.ofList (layout.magnitudeText x.magnitude)

end Layout

end PartitionKeys
