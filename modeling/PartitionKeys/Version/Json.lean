/-
# Values as JSON

A value is an object with its type and its content, in either order, or an array of the two,
where the type stands as its name alone.  A content that comes before its type is kept until
the type is known.
-/
import PartitionKeys.Version.Value
import PartitionKeys.Json.Content
import PartitionKeys.Json.Writer

namespace PartitionKeys

open Json

/-- The types by name. -/
def ValueType.byName : List (String × ValueType) :=
  [ValueType.int, .double, .timestamp, .string].map fun type => (type.name, type)

/-- A type. -/
def ValueType.read : Reader ValueType := readAlternative ValueType.byName

namespace Value

/-- A value of a known type. -/
def readOf (type : ValueType) : Reader Value := fun text =>
  match type with
  | .int => do
    let (n, rest) ← readInt64 text
    .ok (.int n, rest)
  | .double => do
    let (x, rest) ← readBinary64 text
    .ok (.double x, rest)
  | .timestamp => do
    let (n, rest) ← readInt64 text
    .ok (.timestamp n, rest)
  | .string => do
    let (s, rest) ← readText text
    .ok (.string s, rest)

/-- The value of a known type that a content stands for. -/
def ofContent (type : ValueType) (content : Content) : Except Mismatch Value :=
  match type with
  | .int => content.int64.map .int
  | .double => content.binary64.map .double
  | .timestamp => content.int64.map .timestamp
  | .string => content.string.map .string

/-- What is known of a value whose fields are still being read. -/
inductive Partial where
  | nothing
  | typed (type : ValueType)
  | untyped (content : Content)
  | complete (value : Value)

/-- Takes the next field of a value; unknown fields are passed over. -/
def readField (name : String) (known : Partial) : Reader Partial := fun text =>
  match name, known with
  | "type", .nothing => do
    let text ← skipColon text
    let (type, rest) ← ValueType.read text
    .ok (.typed type, rest)
  | "type", .untyped content => do
    let text ← skipColon text
    let (type, rest) ← ValueType.read text
    match ofContent type content with
    | .ok value => .ok (.complete value, rest)
    | .error cause => .error (.mismatch cause)
  | "value", .nothing => do
    let text ← skipColon text
    let (content, rest) ← readContent (nestingLimit - 1) text
    .ok (.untyped content, rest)
  | "value", .typed type => do
    let text ← skipColon text
    let (value, rest) ← readOf type text
    .ok (.complete value, rest)
  | "type", _ | "value", _ => .error (.mismatch (.duplicateField name))
  | _, known => do
    let text ← skipColon text
    let rest ← skipValue text
    .ok (known, rest)

/-- The value of an object whose fields have all been read. -/
def Partial.value : Partial → Except Fault Value
  | .complete value => .ok value
  | .typed _ => .error (.mismatch (.missingField "value"))
  | .nothing | .untyped _ => .error (.mismatch (.missingField "type"))

/-- A value. -/
def read : Reader Value := fun text =>
  match skipBlank text with
  | '[' :: rest => do
    match ← nextElement? true rest with
    | none => .error (.mismatch (.invalidLength 0))
    | some rest =>
      let (type, rest) ← readName ValueType.byName rest
      match ← nextElement? false rest with
      | none => .error (.mismatch (.invalidLength 1))
      | some rest =>
        let (value, rest) ← readOf type rest
        let rest ← closeArray rest
        .ok (value, rest)
  | '\x7b' :: rest => do
    let (known, rest) ← foldFields readField .nothing rest
    let value ← known.value
    let rest ← closeObject rest
    .ok (value, rest)
  | other => .error (otherKind other)

/-- The content of a value. -/
def writeContent : Value → List Char
  | .int value | .timestamp value => writeInt value.toInt
  | .double value => writeBinary64 value
  | .string value => writeText value

/-- The JSON form of a value. -/
def write (value : Value) : List Char :=
  writeObject [("type", writeText value.type.name), ("value", value.writeContent)]

end Value

end PartitionKeys
