/-
# Values of comparison columns

A value has one of four types and is comparable to values of its own type only.  A column of
a version holds a cell: a value, or the null of a type.
-/
import PartitionKeys.Binary64.Rounding

namespace PartitionKeys

/-- The type of a comparison column. -/
inductive ValueType where
  | int
  | double
  | timestamp
  | string
deriving DecidableEq, Repr

/-- The name of a type. -/
def ValueType.name : ValueType → String
  | .int => "int"
  | .double => "double"
  | .timestamp => "timestamp"
  | .string => "string"

/-- A value that can be ordered; a timestamp counts milliseconds. -/
inductive Value where
  | int (value : Int64)
  | double (value : Binary64)
  | timestamp (value : Int64)
  | string (value : String)
deriving DecidableEq, Repr

namespace Value

/-- The type of a value. -/
def type : Value → ValueType
  | .int _ => .int
  | .double _ => .double
  | .timestamp _ => .timestamp
  | .string _ => .string

/-- Compares two values of one type; values of different types have no order.  Floating point
numbers are ranked by their bits, so that only identical ones are equal. -/
def compare? : Value → Value → Option Ordering
  | .int a, .int b => some (compare a.toInt b.toInt)
  | .double a, .double b => some (a.totalCompare b)
  | .timestamp a, .timestamp b => some (compare a.toInt b.toInt)
  | .string a, .string b => some (compare a b)
  | _, _ => none

/-- The value as a time; a text is none. -/
def time? : Value → Option Binary64
  | .int value | .timestamp value => some (Binary64.ofInt value.toInt)
  | .double value => some value
  | .string _ => none

/-- Equality of values, with floating point numbers equal as numbers: the zeros are equal and
a not-a-number equals nothing. -/
def same : Value → Value → Bool
  | .int a, .int b => a == b
  | .double a, .double b => a.sameNumber b
  | .timestamp a, .timestamp b => a == b
  | .string a, .string b => a == b
  | _, _ => false

end Value

/-- The value that stands in for the null of a type where a null cannot be told. -/
def ValueType.placeholder : ValueType → Value
  | .int => .int Int64.minValue
  | .double => .double Binary64.negativeInfinity
  | .timestamp => .timestamp 0
  | .string => .string "null"

/-- What a version holds in a column. -/
inductive Cell where
  | full (value : Value)
  | null (type : ValueType)
deriving DecidableEq, Repr

namespace Cell

/-- The value of a cell, if it is not null. -/
def value? : Cell → Option Value
  | .full value => some value
  | .null _ => none

/-- Whether the cell is null. -/
def isNull (cell : Cell) : Bool := cell.value?.isNone

/-- Equality of cells: two nulls are equal when their types are. -/
def same : Cell → Cell → Bool
  | .full a, .full b => a.same b
  | .null a, .null b => a == b
  | _, _ => false

end Cell

end PartitionKeys
