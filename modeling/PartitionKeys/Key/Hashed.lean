/-
# Keys under which entries are held

A table holds its entries under the whole key or under a digest of its encoding.  Keys of one
table all have one form; the order puts whole keys before digests.
-/
import PartitionKeys.Key.Basic
import PartitionKeys.Digest.Fnv
import PartitionKeys.Digest.Sha256

namespace PartitionKeys

/-- What is done to a primary key before an entry is held under it. -/
inductive KeyHash where
  /-- The whole key is kept. -/
  | whole
  | fnv64
  | sha256
deriving DecidableEq, Repr

/-- The key under which an entry is held. -/
inductive IndexKey where
  | whole (key : PrimaryKey)
  | fnv64 (digest : UInt64)
  | sha256 (digest : Bytes)
deriving DecidableEq, Repr

namespace IndexKey

/-- Compares two keys; keys of different forms compare by form. -/
def compare : IndexKey → IndexKey → Ordering
  | .whole a, .whole b => Ord.compare a b
  | .whole _, _ => .lt
  | .fnv64 _, .whole _ => .gt
  | .fnv64 a, .fnv64 b => Ord.compare a b
  | .fnv64 _, .sha256 _ => .lt
  | .sha256 a, .sha256 b => Ord.compare a b
  | .sha256 _, _ => .gt

instance : Ord IndexKey := ⟨compare⟩

/-- The text of the whole key, or the digest in hexadecimal. -/
def display : IndexKey → String
  | .whole key => key.display
  | .fnv64 digest => Bytes.hex (Bytes.bigEndian 8 digest.toNat)
  | .sha256 digest => Bytes.hex digest

end IndexKey

namespace KeyHash

/-- The name of a hash function. -/
def name : KeyHash → String
  | .whole => "none"
  | .fnv64 => "fnv64"
  | .sha256 => "sha256"

/-- The key under which the entry of a primary key is held. -/
def apply : KeyHash → PrimaryKey → IndexKey
  | .whole, key => .whole key
  | .fnv64, key => .fnv64 (Digest.fnv64 key.encode)
  | .sha256, key => .sha256 (Digest.sha256 key.encode)

end KeyHash

end PartitionKeys
