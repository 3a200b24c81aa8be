/-
# Double precision numbers as bit patterns

A number is kept as its 64 bits, so that a not-a-number keeps its payload and the two
zeros stay apart.  Two orders live here.  The *total order* ranks every pattern and is the
order of versions; the *numeric order* `<` and `≤` is the one of real numbers, in which a
not-a-number is comparable to nothing, and is the order of times.  Both are read off an
integer: the patterns of one sign are already sorted by magnitude.
-/
import PartitionKeys.Bytes

namespace PartitionKeys

/-- A double precision number, given by its bits: the sign, eleven bits of exponent and
fifty-two bits of fraction. -/
structure Binary64 where
  /-- The pattern, sign bit first. -/
  bits : UInt64
deriving DecidableEq, Repr

namespace Binary64

/-- The bits below the sign.  For numbers of one sign they grow with the absolute value. -/
def magnitude (x : Binary64) : Nat := x.bits.toNat % 0x8000000000000000

/-- The sign bit. -/
def isNegative (x : Binary64) : Bool := decide (0x8000000000000000 ≤ x.bits.toNat)

/-- The magnitude of the infinities: all exponent bits set, no fraction. -/
def infiniteMagnitude : Nat := 0x7ff0000000000000

/-- A not-a-number lies beyond the infinities. -/
def isNaN (x : Binary64) : Bool := decide (infiniteMagnitude < x.magnitude)

/-- The pattern of a sign and a magnitude below `2 ^ 63`. -/
def ofMagnitude (negative : Bool) (m : Nat) : Binary64 :=
  ⟨UInt64.ofNat (if negative then 0x8000000000000000 + m else m)⟩

/-- Positive zero. -/
def zero : Binary64 := ⟨0⟩

/-- Negative infinity. -/
def negativeInfinity : Binary64 := ofMagnitude true infiniteMagnitude

/-- The quiet not-a-number that arithmetic answers where no number will do. -/
def nan : Binary64 := ⟨0x7ff8000000000000⟩

/-- The number with the other sign. -/
def neg (x : Binary64) : Binary64 := ofMagnitude (!x.isNegative) x.magnitude

/-! ## The total order of all patterns -/

/-- The place of a pattern among all patterns: negative ones by falling magnitude, then the
others by rising magnitude, so that `-0` comes just before `+0`. -/
def rank (x : Binary64) : Int :=
  if x.isNegative then -(x.magnitude : Int) - 1 else x.magnitude

/-- Compares two patterns by their place among all patterns. -/
def totalCompare (x y : Binary64) : Ordering := compare x.rank y.rank

/-! ## The numeric order -/

/-- The magnitude with its sign: an order preserving image of the numbers in which both
zeros are `0`. -/
def signed (x : Binary64) : Int :=
  if x.isNegative then -(x.magnitude : Int) else x.magnitude

/-- Neither operand is a not-a-number and the first is the smaller number. -/
instance : LT Binary64 where
  lt x y := x.isNaN = false ∧ y.isNaN = false ∧ x.signed < y.signed

/-- Neither operand is a not-a-number and the first is not the larger number. -/
instance : LE Binary64 where
  le x y := x.isNaN = false ∧ y.isNaN = false ∧ x.signed ≤ y.signed

theorem lt_def (x y : Binary64) :
    x < y ↔ x.isNaN = false ∧ y.isNaN = false ∧ x.signed < y.signed := Iff.rfl

theorem le_def (x y : Binary64) :
    x ≤ y ↔ x.isNaN = false ∧ y.isNaN = false ∧ x.signed ≤ y.signed := Iff.rfl

instance (x y : Binary64) : Decidable (x < y) :=
  decidable_of_iff _ (lt_def x y).symm

instance (x y : Binary64) : Decidable (x ≤ y) :=
  decidable_of_iff _ (le_def x y).symm

theorem lt_irrefl (x : Binary64) : ¬x < x := fun h => Int.lt_irrefl _ h.2.2

theorem lt_trans {x y z : Binary64} (hxy : x < y) (hyz : y < z) : x < z :=
  ⟨hxy.1, hyz.2.1, Int.lt_trans hxy.2.2 hyz.2.2⟩

theorem le_of_lt {x y : Binary64} (h : x < y) : x ≤ y := ⟨h.1, h.2.1, Int.le_of_lt h.2.2⟩

/-- Between two numbers, one of the two orders holds; a not-a-number has neither. -/
theorem lt_or_le {x y : Binary64} (hx : x.isNaN = false) (hy : y.isNaN = false) :
    x < y ∨ y ≤ x := by
  rcases Int.lt_or_le x.signed y.signed with h | h
  · exact Or.inl ⟨hx, hy, h⟩
  · exact Or.inr ⟨hy, hx, h⟩

/-- Equality of numbers: the zeros are equal and a not-a-number equals nothing. -/
def sameNumber (x y : Binary64) : Bool :=
  !x.isNaN && !y.isNaN && decide (x.signed = y.signed)

/-! ## Big-endian bytes -/

/-- The eight bytes of the pattern, most significant first. -/
def toBytes (x : Binary64) : Bytes := Bytes.bigEndian 8 x.bits.toNat

/-- The pattern that eight bytes spell; any other number of bytes spells none. -/
def ofBytes? (bytes : Bytes) : Option Binary64 :=
  if bytes.length = 8 then some ⟨UInt64.ofNat bytes.toNat⟩ else none

theorem ofBytes?_toBytes (x : Binary64) : ofBytes? x.toBytes = some x := by
  unfold ofBytes? toBytes
  rw [if_pos (Bytes.length_bigEndian 8 _), Bytes.toNat_bigEndian x.bits.toNat_lt,
    UInt64.ofNat_toNat]

end Binary64

end PartitionKeys
