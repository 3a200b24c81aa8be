/-
# JSON numbers

A number is first taken from the text as a `Literal`, by the grammar alone, and then
evaluated.  Whole numbers without fraction and exponent are kept exactly as long as they fit
into sixty-four bits.  All others become floating point numbers in a fixed sequence of
rounded steps: the leading digits as a whole number, then one product or quotient with a
power of ten.  The result can differ from the number nearest to the text in its last bit.
-/
import PartitionKeys.Json.Fault
import PartitionKeys.Binary64.Rounding

namespace PartitionKeys.Json

/-- A number as it is spelled. -/
structure Literal where
  negative : Bool
  /-- The digits before the point. -/
  whole : List Char
  /-- The digits after the point, if there is one. -/
  fraction : Option (List Char)
  /-- Whether the exponent is negative, and its digits, if there is one. -/
  exponent : Option (Bool × List Char)
deriving DecidableEq, Repr

/-- A decimal digit. -/
def isDigit (c : Char) : Bool := decide ('0' ≤ c) && decide (c ≤ '9')

/-- The value of a decimal digit. -/
def digitValue (c : Char) : Nat := c.toNat - '0'.toNat

/-- The digits at the front of a text; there must be one.  A text that ends instead has the
fault `atEnd`. -/
def takeDigits (atEnd : Fault) (text : List Char) : Except Fault (List Char × List Char) :=
  match text with
  | [] => .error atEnd
  | c :: _ =>
    if isDigit c then .ok (text.takeWhile isDigit, text.dropWhile isDigit) else .error .malformed

/-- The digits before the point: a leading zero stands alone. -/
def takeWhole (atEnd : Fault) (text : List Char) : Except Fault (List Char × List Char) := do
  let (digits, rest) ← takeDigits atEnd text
  match digits with
  | '0' :: _ :: _ => .error .malformed
  | _ => .ok (digits, rest)

/-- The point and the digits after it, if the text goes on so. -/
def takeFraction (atEnd : Fault) : List Char → Except Fault (Option (List Char) × List Char)
  | '.' :: text => do
    let (digits, rest) ← takeDigits atEnd text
    .ok (some digits, rest)
  | text => .ok (none, text)

/-- The sign of an exponent. -/
def takeSign : List Char → Bool × List Char
  | '+' :: text => (false, text)
  | '-' :: text => (true, text)
  | text => (false, text)

/-- The mark of an exponent and its digits, if the text goes on so. -/
def takeExponent (atEnd : Fault) : List Char → Except Fault (Option (Bool × List Char) × List Char)
  | [] => .ok (none, [])
  | c :: text =>
    if c = 'e' ∨ c = 'E' then do
      let (negative, text) := takeSign text
      let (digits, rest) ← takeDigits atEnd text
      .ok (some (negative, digits), rest)
    else .ok (none, c :: text)

/-- The number at the front of a text.  A text that ends inside the number has the fault
`atEnd`: a value that is only passed over counts as malformed there. -/
def takeLiteral (atEnd : Fault) (text : List Char) : Except Fault (Literal × List Char) := do
  let (negative, text) := match text with
    | '-' :: rest => (true, rest)
    | text => (false, text)
  let (whole, text) ← takeWhole atEnd text
  let (fraction, text) ← takeFraction atEnd text
  let (exponent, text) ← takeExponent atEnd text
  .ok (⟨negative, whole, fraction, exponent⟩, text)

/-! ## Evaluation -/

/-- A number that was read: whole numbers of sixty-four bits are exact. -/
inductive Number where
  /-- A whole number from `0` up to `2 ^ 64 - 1`. -/
  | natural (n : Nat)
  /-- A whole number from `-2 ^ 63` up to `-1`. -/
  | negative (n : Int)
  /-- Any other number. -/
  | float (x : Binary64)
deriving DecidableEq, Repr

/-- Appends digits to a whole number as long as it fits into sixty-four bits; answers the
digits left over too. -/
def accumulate (n : Nat) : List Char → Nat × List Char
  | [] => (n, [])
  | c :: rest =>
    if n * 10 + digitValue c < UInt64.size then accumulate (n * 10 + digitValue c) rest
    else (n, c :: rest)

/-- Scales a magnitude by a power of ten.  A power beyond `10 ^ 308` has no magnitude of its
own: upwards that is out of range, downwards `10 ^ 308` is divided out first, which leaves
nothing after the second time. -/
def scale : Nat → Nat → Int → Option Nat
  | 0, m, _ => some m
  | rounds + 1, m, exponent =>
    if exponent.natAbs ≤ 308 then
      let power := Binary64.magnitudeOfNat (Nat.pow 10 exponent.natAbs)
      if 0 ≤ exponent then
        let product := Binary64.mulMagnitude m power
        if product = Binary64.infiniteMagnitude then none else some product
      else some (Binary64.divMagnitude m power)
    else if m = 0 then some 0
    else if 0 ≤ exponent then none
    else
      scale rounds (Binary64.divMagnitude m (Binary64.magnitudeOfNat (Nat.pow 10 308)))
        (exponent + 308)

/-- The exponents that are counted; a longer one takes any number to zero or out of range. -/
def exponentLimit : Nat := 0x7fffffff

/-- A sum of exponents, held within thirty-two bits. -/
def clampExponent (e : Int) : Int := max (-0x80000000) (min e exponentLimit)

/-- The magnitude of a significand with an exponent; `none` when it is out of range. -/
def scaled (significand : Nat) (start : Int) (exponent : Option (Bool × List Char)) : Option Nat :=
  let m := Binary64.magnitudeOfNat significand
  match exponent with
  | none => scale 4 m start
  | some (negative, digits) =>
    let e := digits.foldl (fun n c => n * 10 + digitValue c) 0
    if exponentLimit < e then
      if significand ≠ 0 ∧ negative = false then none else some 0
    else scale 4 m (clampExponent (if negative then start - e else start + e))

/-- The value of a literal; a number out of range is malformed. -/
def Literal.value (literal : Literal) : Except Fault Number :=
  let (lead, dropped) := accumulate 0 literal.whole
  match dropped, literal.fraction, literal.exponent with
  | [], none, none =>
    if literal.negative then
      if lead = 0 ∨ 0x8000000000000000 < lead then
        .ok (.float (Binary64.ofMagnitude true (Binary64.magnitudeOfNat lead)))
      else .ok (.negative (-(lead : Int)))
    else .ok (.natural lead)
  | _, fraction, exponent =>
    let digits := fraction.getD []
    let (significand, unused) := accumulate lead digits
    let start : Int := (dropped.length : Int) - ((digits.length - unused.length : Nat) : Int)
    match scaled significand start exponent with
    | some m => .ok (.float (Binary64.ofMagnitude literal.negative m))
    | none => .error .malformed

/-- The number at the front of a text, evaluated. -/
def readNumber : Reader Number := fun text => do
  let (literal, rest) ← takeLiteral .truncated text
  let value ← literal.value
  .ok (value, rest)

/-- The number nearest to a number that was read. -/
def Number.toBinary64 : Number → Binary64
  | .natural n => Binary64.ofInt n
  | .negative n => Binary64.ofInt n
  | .float x => x

end PartitionKeys.Json
