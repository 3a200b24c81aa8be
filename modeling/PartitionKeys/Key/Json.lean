/-
# Primary keys as JSON

A key is an array of its parts.  A part has no tag: a whole number of sixty-four bits is a
number, a quoted text is a text, and an array of numbers below 256 is bytes.
-/
import PartitionKeys.Key.Hashed
import PartitionKeys.Json.Content
import PartitionKeys.Json.Writer

namespace PartitionKeys

open Json

/-- The hash functions by name. -/
def KeyHash.byName : List (String × KeyHash) :=
  [KeyHash.whole, .fnv64, .sha256].map fun hash => (hash.name, hash)

/-- A hash function. -/
def KeyHash.read : Reader KeyHash := readAlternative KeyHash.byName

namespace KeyPart

/-- A byte of an array. -/
def byte? (element : Content) : Option UInt8 :=
  match element.integer 0 255 with
  | .ok n => some (UInt8.ofNat n.toNat)
  | .error _ => none

/-- The part that a value stands for: the first of number, text and bytes that fits. -/
def ofContent? : Content → Option KeyPart
  | .text s => some (.text s)
  | .array elements => (elements.mapM byte?).map .bytes
  | content =>
    match content.int64 with
    | .ok n => some (.int n)
    | .error _ => none

/-- A part inside so many open arrays and objects. -/
def readNested (depth : Nat) : Reader KeyPart := fun text => do
  let (content, rest) ← readContent (nestingLimit - depth) text
  match ofContent? content with
  | some part => .ok (part, rest)
  | none => .error (.mismatch (.noVariant "KeyValue"))

/-- A part on its own. -/
def read : Reader KeyPart := readNested 0

/-- The JSON form of a part. -/
def write : KeyPart → List Char
  | .int value => writeInt value.toInt
  | .text value => writeText value
  | .bytes value => writeArray (value.map fun byte => writeInt byte.toNat)

end KeyPart

namespace PrimaryKey

/-- A key. -/
def read : Reader PrimaryKey := fun text => do
  let (parts, rest) ← readArray (KeyPart.readNested 1) text
  .ok (⟨parts⟩, rest)

/-- The JSON form of a key. -/
def write (key : PrimaryKey) : List Char := writeArray (key.parts.map KeyPart.write)

end PrimaryKey

end PartitionKeys
