/-
# The SHA-256 digest

A message is padded to whole blocks of sixty-four bytes, each block is expanded into
sixty-four words, and the words stir a state of eight words.  The digest is the state after
the last block.
-/
import PartitionKeys.Bytes

namespace PartitionKeys.Digest

/-- A word rotated to the right by fewer than thirty-two bits. -/
def rotateRight (word amount : UInt32) : UInt32 :=
  word >>> amount ||| word <<< (32 - amount)

/-- The eight words that a block stirs. -/
structure Sha256State where
  a : UInt32
  b : UInt32
  c : UInt32
  d : UInt32
  e : UInt32
  f : UInt32
  g : UInt32
  h : UInt32
deriving DecidableEq, Repr

namespace Sha256State

/-- The state before the first block: the fractional parts of the square roots of the first
eight primes. -/
def initial : Sha256State :=
  ⟨0x6a09e667, 0xbb67ae85, 0x3c6ef372, 0xa54ff53a, 0x510e527f, 0x9b05688c, 0x1f83d9ab,
    0x5be0cd19⟩

/-- Adds two states word by word. -/
def add (s t : Sha256State) : Sha256State :=
  ⟨s.a + t.a, s.b + t.b, s.c + t.c, s.d + t.d, s.e + t.e, s.f + t.f, s.g + t.g, s.h + t.h⟩

/-- One round: a round constant and a word of the block are stirred in. -/
def round (s : Sha256State) (constant word : UInt32) : Sha256State :=
  let high := rotateRight s.e 6 ^^^ rotateRight s.e 11 ^^^ rotateRight s.e 25
  let choice := (s.e &&& s.f) ^^^ (~~~s.e &&& s.g)
  let first := s.h + high + choice + constant + word
  let low := rotateRight s.a 2 ^^^ rotateRight s.a 13 ^^^ rotateRight s.a 22
  let majority := (s.a &&& s.b) ^^^ (s.a &&& s.c) ^^^ (s.b &&& s.c)
  ⟨first + (low + majority), s.a, s.b, s.c, s.d + first, s.e, s.f, s.g⟩

/-- The thirty-two bytes of a state. -/
def toBytes (s : Sha256State) : Bytes :=
  [s.a, s.b, s.c, s.d, s.e, s.f, s.g, s.h].flatMap fun word => Bytes.bigEndian 4 word.toNat

end Sha256State

/-- The round constants: the fractional parts of the cube roots of the first sixty-four
primes. -/
def sha256Constants : List UInt32 :=
  [0x428a2f98, 0x71374491, 0xb5c0fbcf, 0xe9b5dba5, 0x3956c25b, 0x59f111f1, 0x923f82a4, 0xab1c5ed5,
    0xd807aa98, 0x12835b01, 0x243185be, 0x550c7dc3, 0x72be5d74, 0x80deb1fe, 0x9bdc06a7, 0xc19bf174,
    0xe49b69c1, 0xefbe4786, 0x0fc19dc6, 0x240ca1cc, 0x2de92c6f, 0x4a7484aa, 0x5cb0a9dc, 0x76f988da,
    0x983e5152, 0xa831c66d, 0xb00327c8, 0xbf597fc7, 0xc6e00bf3, 0xd5a79147, 0x06ca6351, 0x14292967,
    0x27b70a85, 0x2e1b2138, 0x4d2c6dfc, 0x53380d13, 0x650a7354, 0x766a0abb, 0x81c2c92e, 0x92722c85,
    0xa2bfe8a1, 0xa81a664b, 0xc24b8b70, 0xc76c51a3, 0xd192e819, 0xd6990624, 0xf40e3585, 0x106aa070,
    0x19a4c116, 0x1e376c08, 0x2748774c, 0x34b0bcb5, 0x391c0cb3, 0x4ed8aa4a, 0x5b9cca4f, 0x682e6ff3,
    0x748f82ee, 0x78a5636f, 0x84c87814, 0x8cc70208, 0x90befffa, 0xa4506ceb, 0xbef9a3f7, 0xc67178f2]

/-- A message with the byte `0x80`, zeros up to eight bytes before the end of a block, and the
length of the message in bits. -/
def padded (message : Bytes) : Bytes :=
  message ++ 0x80 :: List.replicate ((119 - message.length % 64) % 64) 0
    ++ Bytes.bigEndian 8 (8 * message.length)

/-- The first so many groups of `width` elements. -/
def groups {α : Type} (width : Nat) : Nat → List α → List (List α)
  | 0, _ => []
  | count + 1, xs => xs.take width :: groups width count (xs.drop width)

/-- The words of a block. -/
def blockWords (block : Bytes) : List UInt32 :=
  (groups 4 16 block).map fun bytes => UInt32.ofNat (Bytes.toNat bytes)

/-- The words that follow a window of sixteen words: each one is a sum of four earlier ones,
two of them stirred. -/
def scheduleTail : Nat → List UInt32 → List UInt32
  | 0, _ => []
  | count + 1, window =>
    let w15 := window.getD 1 0
    let w2 := window.getD 14 0
    let s0 := rotateRight w15 7 ^^^ rotateRight w15 18 ^^^ w15 >>> 3
    let s1 := rotateRight w2 17 ^^^ rotateRight w2 19 ^^^ w2 >>> 10
    let next := window.getD 0 0 + s0 + window.getD 9 0 + s1
    next :: scheduleTail count (window.drop 1 ++ [next])

/-- The sixty-four words that a block is expanded into. -/
def schedule (block : Bytes) : List UInt32 :=
  blockWords block ++ scheduleTail 48 (blockWords block)

/-- Stirs one block into a state. -/
def compress (state : Sha256State) (block : Bytes) : Sha256State :=
  state.add ((sha256Constants.zip (schedule block)).foldl (fun s (k, w) => s.round k w) state)

/-- The digest of a message. -/
def sha256 (message : Bytes) : Bytes :=
  let whole := padded message
  ((groups 64 (whole.length / 64) whole).foldl compress Sha256State.initial).toBytes

end PartitionKeys.Digest
