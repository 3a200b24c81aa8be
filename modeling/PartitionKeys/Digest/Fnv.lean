/-
# The sixty-four bit FNV-1a digest

A running word takes in one byte after the other: the byte is added without carry, and the
word is multiplied by a prime modulo `2 ^ 64`.
-/
import PartitionKeys.Bytes

namespace PartitionKeys.Digest

/-- The word before the first byte. -/
def fnvOffset : UInt64 := 0xcbf29ce484222325

/-- The multiplier. -/
def fnvPrime : UInt64 := 0x100000001b3

/-- Takes one byte into the running word. -/
def fnvStep (word : UInt64) (byte : UInt8) : UInt64 := (word ^^^ byte.toUInt64) * fnvPrime

/-- The digest of a sequence of bytes. -/
def fnv64 (bytes : Bytes) : UInt64 := bytes.foldl fnvStep fnvOffset

end PartitionKeys.Digest
