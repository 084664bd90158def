import ShardLedger.Hash.Words

/-!
# SHA-256 and message authentication

SHA-256 over byte strings, and the keyed hash HMAC built from it.
-/

namespace ShardLedger.Sha256

open Hash

/-- The eight words of the state. -/
structure State where
  a : UInt32
  b : UInt32
  c : UInt32
  d : UInt32
  e : UInt32
  f : UInt32
  g : UInt32
  h : UInt32

/-- The state before the first block. -/
def initial : State :=
  ⟨0x6a09e667, 0xbb67ae85, 0x3c6ef372, 0xa54ff53a, 0x510e527f, 0x9b05688c, 0x1f83d9ab, 0x5be0cd19⟩

/-- The constants of the sixty-four rounds. -/
def roundConstants : List UInt32 :=
  [0x428a2f98, 0x71374491, 0xb5c0fbcf, 0xe9b5dba5, 0x3956c25b, 0x59f111f1, 0x923f82a4, 0xab1c5ed5,
    0xd807aa98, 0x12835b01, 0x243185be, 0x550c7dc3, 0x72be5d74, 0x80deb1fe, 0x9bdc06a7, 0xc19bf174,
    0xe49b69c1, 0xefbe4786, 0x0fc19dc6, 0x240ca1cc, 0x2de92c6f, 0x4a7484aa, 0x5cb0a9dc, 0x76f988da,
    0x983e5152, 0xa831c66d, 0xb00327c8, 0xbf597fc7, 0xc6e00bf3, 0xd5a79147, 0x06ca6351, 0x14292967,
    0x27b70a85, 0x2e1b2138, 0x4d2c6dfc, 0x53380d13, 0x650a7354, 0x766a0abb, 0x81c2c92e, 0x92722c85,
    0xa2bfe8a1, 0xa81a664b, 0xc24b8b70, 0xc76c51a3, 0xd192e819, 0xd6990624, 0xf40e3585, 0x106aa070,
    0x19a4c116, 0x1e376c08, 0x2748774c, 0x34b0bcb5, 0x391c0cb3, 0x4ed8aa4a, 0x5b9cca4f, 0x682e6ff3,
    0x748f82ee, 0x78a5636f, 0x84c87814, 0x8cc70208, 0x90befffa, 0xa4506ceb, 0xbef9a3f7, 0xc67178f2]

/-- The next word of the message schedule, from the sixteen before it. -/
def nextWord (window : List UInt32) : UInt32 :=
  let x := window.getD 1 0
  let y := window.getD 14 0
  let s0 := rotateRight32 x 7 ^^^ rotateRight32 x 18 ^^^ (x >>> 3)
  let s1 := rotateRight32 y 17 ^^^ rotateRight32 y 19 ^^^ (y >>> 10)
  window.getD 0 0 + s0 + window.getD 9 0 + s1

/-- One round with its constant and its word of the message schedule. -/
def round (s : State) (constant word : UInt32) : State :=
  let s1 := rotateRight32 s.e 6 ^^^ rotateRight32 s.e 11 ^^^ rotateRight32 s.e 25
  let choice := (s.e &&& s.f) ^^^ ((s.e ^^^ 0xffffffff) &&& s.g)
  let t1 := s.h + s1 + choice + constant + word
  let s0 := rotateRight32 s.a 2 ^^^ rotateRight32 s.a 13 ^^^ rotateRight32 s.a 22
  let majority := (s.a &&& s.b) ^^^ (s.a &&& s.c) ^^^ (s.b &&& s.c)
  ⟨t1 + s0 + majority, s.a, s.b, s.c, s.d + t1, s.e, s.f, s.g⟩

/-- One round and the step of the message schedule behind it. -/
def advance (progress : State × List UInt32) (constant : UInt32) : State × List UInt32 :=
  let (s, window) := progress
  (round s constant (window.getD 0 0), window.drop 1 ++ [nextWord window])

/-- Take in one block. -/
def compress (s : State) (block : Bytes) : State :=
  let t := (roundConstants.foldl advance (s, words32Big block)).1
  ⟨s.a + t.a, s.b + t.b, s.c + t.c, s.d + t.d, s.e + t.e, s.f + t.f, s.g + t.g, s.h + t.h⟩

/-- The message up to whole blocks: its bytes, the padding and the count of its bits. -/
def padded (message : Bytes) : Bytes :=
  let length := message.length
  message ++ padding length ++ bytes64Big (8 * length).toUInt64

/-- The bytes of a state. -/
def State.toBytes (s : State) : Bytes :=
  bytes32Big s.a ++ bytes32Big s.b ++ bytes32Big s.c ++ bytes32Big s.d ++
    bytes32Big s.e ++ bytes32Big s.f ++ bytes32Big s.g ++ bytes32Big s.h

@[simp]
theorem State.length_toBytes (s : State) : s.toBytes.length = 32 := rfl

/-- The digest of a message. -/
def digest (message : Bytes) : Digest :=
  let s := absorb 64 compress initial (padded message)
  ⟨s.toBytes, s.length_toBytes⟩

/-- A key as one block: a long one is hashed first, and zeros fill the rest. -/
def keyBlock (key : Bytes) : Bytes :=
  let short := if key.length > 64 then (digest key).bytes else key
  short ++ List.replicate (64 - short.length) 0

/-- The keyed hash of a message. -/
def hmac (key message : Bytes) : Digest :=
  let block := keyBlock key
  let inner := digest (block.map (· ^^^ 0x36) ++ message)
  digest (block.map (· ^^^ 0x5c) ++ inner.bytes)

end ShardLedger.Sha256
