/-
# Primary keys

A primary key is the tuple of the values that a record has in the key columns.  Keys are
ordered part by part; a number comes before a text and a text before bytes.  The encoding of
a key puts a tag and, where the width varies, a length before each part, so that two keys
never share their bytes.
-/
import PartitionKeys.Bytes

namespace PartitionKeys

/-- One component of a primary key. -/
inductive KeyPart where
  | int (value : Int64)
  | text (value : String)
  | bytes (value : Bytes)
deriving DecidableEq, Repr

namespace KeyPart

/-- Compares two parts; parts of different kinds compare by kind. -/
def compare : KeyPart → KeyPart → Ordering
  | .int a, .int b => Ord.compare a.toInt b.toInt
  | .int _, _ => .lt
  | .text _, .int _ => .gt
  | .text a, .text b => Ord.compare a b
  | .text _, .bytes _ => .lt
  | .bytes a, .bytes b => Ord.compare a b
  | .bytes _, _ => .gt

instance : Ord KeyPart := ⟨compare⟩

/-- The text of a part; bytes are shown in hexadecimal. -/
def display : KeyPart → String
  | .int value => toString value.toInt
  | .text value => value
  | .bytes value => Bytes.hex value

/-- Bytes with their number before them, in four bytes. -/
def lengthPrefixed (payload : Bytes) : Bytes := Bytes.bigEndian 4 payload.length ++ payload

/-- The encoding of a part: its tag, then eight bytes of a number or the payload with its
length. -/
def encode : KeyPart → Bytes
  | .int value => 1 :: Bytes.bigEndian 8 value.toUInt64.toNat
  | .text value => 2 :: lengthPrefixed (Bytes.ofText value)
  | .bytes value => 3 :: lengthPrefixed value

end KeyPart

/-- The values of a record in the key columns. -/
structure PrimaryKey where
  parts : List KeyPart
deriving DecidableEq, Repr

namespace PrimaryKey

/-- Compares two keys part by part; a key comes before its extensions. -/
def compare (a b : PrimaryKey) : Ordering := Ord.compare a.parts b.parts

instance : Ord PrimaryKey := ⟨compare⟩

/-- The parts between brackets. -/
def display (key : PrimaryKey) : String :=
  "[" ++ ", ".intercalate (key.parts.map KeyPart.display) ++ "]"

/-- The encodings of the parts, one after the other. -/
def encode (key : PrimaryKey) : Bytes := key.parts.flatMap KeyPart.encode

end PrimaryKey

end PartitionKeys
