import ShardLedger.Hash.Words

/-!
# BLAKE2b

BLAKE2b with a digest of 32 bytes.  The working state is a square of sixteen
words in four rows.  A round mixes the four columns of the square, and then its
diagonals, which turning the rows makes into columns.
-/

namespace ShardLedger.Blake2b

open Hash

/-- Four words in a row. -/
structure Row where
  w0 : UInt64
  w1 : UInt64
  w2 : UInt64
  w3 : UInt64

namespace Row

/-- Combine two rows word by word. -/
def zipWith (f : UInt64 → UInt64 → UInt64) (x y : Row) : Row :=
  ⟨f x.w0 y.w0, f x.w1 y.w1, f x.w2 y.w2, f x.w3 y.w3⟩

/-- The sums of the words of two rows. -/
def add (x y : Row) : Row :=
  zipWith (· + ·) x y

/-- The exclusive or of the words of two rows. -/
def xor (x y : Row) : Row :=
  zipWith (· ^^^ ·) x y

/-- Rotate each word of a row to the right. -/
def rotateRight (x : Row) (n : UInt64) : Row :=
  ⟨rotateRight64 x.w0 n, rotateRight64 x.w1 n, rotateRight64 x.w2 n, rotateRight64 x.w3 n⟩

/-- Move every word one place to the left. -/
def turn (x : Row) : Row :=
  ⟨x.w1, x.w2, x.w3, x.w0⟩

/-- The bytes of a row. -/
def toBytes (x : Row) : Bytes :=
  bytes64Little x.w0 ++ bytes64Little x.w1 ++ bytes64Little x.w2 ++ bytes64Little x.w3

@[simp]
theorem length_toBytes (x : Row) : x.toBytes.length = 32 := rfl

end Row

/-- The working state. -/
structure Square where
  a : Row
  b : Row
  c : Row
  d : Row

/-- The state between blocks: the upper half of a square. -/
structure Chain where
  top : Row
  bottom : Row

/-- The initial value of the first row. -/
def initialTop : Row :=
  ⟨0x6a09e667f3bcc908, 0xbb67ae8584caa73b, 0x3c6ef372fe94f82b, 0xa54ff53a5f1d36f1⟩

/-- The initial value of the second row. -/
def initialBottom : Row :=
  ⟨0x510e527fade682d1, 0x9b05688c2b3e6c1f, 0x1f83d9abfb41bd6b, 0x5be0cd19137e2179⟩

/-- The order in which each round takes the sixteen words of a block. -/
def schedule : List (List Nat) :=
  [[0, 1, 2, 3, 4, 5, 6, 7, 8, 9, 10, 11, 12, 13, 14, 15],
    [14, 10, 4, 8, 9, 15, 13, 6, 1, 12, 0, 2, 11, 7, 5, 3],
    [11, 8, 12, 0, 5, 2, 15, 13, 10, 14, 3, 6, 7, 1, 9, 4],
    [7, 9, 3, 1, 13, 12, 11, 14, 2, 6, 5, 10, 4, 0, 15, 8],
    [9, 0, 5, 7, 2, 4, 10, 15, 14, 1, 11, 12, 6, 8, 3, 13],
    [2, 12, 6, 10, 0, 11, 8, 3, 4, 13, 7, 5, 15, 14, 1, 9],
    [12, 5, 1, 15, 14, 13, 4, 10, 0, 7, 6, 3, 9, 2, 8, 11],
    [13, 11, 7, 14, 12, 1, 3, 9, 5, 0, 15, 4, 8, 6, 2, 10],
    [6, 15, 14, 9, 11, 3, 0, 8, 12, 2, 13, 7, 1, 4, 10, 5],
    [10, 2, 8, 4, 7, 6, 1, 5, 15, 11, 9, 14, 3, 12, 13, 0],
    [0, 1, 2, 3, 4, 5, 6, 7, 8, 9, 10, 11, 12, 13, 14, 15],
    [14, 10, 4, 8, 9, 15, 13, 6, 1, 12, 0, 2, 11, 7, 5, 3]]

/-- Mix the four columns of a square, each with two words of the block. -/
def mixColumns (s : Square) (x y : Row) : Square :=
  let a := (s.a.add s.b).add x
  let d := (s.d.xor a).rotateRight 32
  let c := s.c.add d
  let b := (s.b.xor c).rotateRight 24
  let a := (a.add b).add y
  let d := (d.xor a).rotateRight 16
  let c := c.add d
  let b := (b.xor c).rotateRight 63
  ⟨a, b, c, d⟩

/-- One round over a block. -/
def round (block : Array UInt64) (s : Square) (order : List Nat) : Square :=
  let word := fun i => block.getD (order.getD i 0) 0
  let s := mixColumns s ⟨word 0, word 2, word 4, word 6⟩ ⟨word 1, word 3, word 5, word 7⟩
  let s := ⟨s.a, s.b.turn, s.c.turn.turn, s.d.turn.turn.turn⟩
  let s := mixColumns s ⟨word 8, word 10, word 12, word 14⟩ ⟨word 9, word 11, word 13, word 15⟩
  ⟨s.a, s.b.turn.turn.turn, s.c.turn.turn, s.d.turn⟩

/-- The number of bytes in a block. -/
def blockSize : Nat := 128

/-- Take in one block; `count` bytes have been read up to its end. -/
def compress (chain : Chain) (count : Nat) (isLast : Bool) (block : Bytes) : Chain :=
  let words := (words64Little (block ++ List.replicate (blockSize - block.length) 0)).toArray
  let counter : Row := ⟨count.toUInt64, (count >>> 64).toUInt64,
    if isLast then 0xffffffffffffffff else 0, 0⟩
  let s := schedule.foldl (round words)
    ⟨chain.top, chain.bottom, initialTop, initialBottom.xor counter⟩
  ⟨(chain.top.xor s.a).xor s.c, (chain.bottom.xor s.b).xor s.d⟩

/-- Take in a message block by block; `count` bytes have been read before it. -/
def absorb (chain : Chain) (count : Nat) (message : Bytes) : Chain :=
  if message.drop blockSize = [] then compress chain (count + message.length) true message
  else
    absorb (compress chain (count + blockSize) false (message.take blockSize))
      (count + blockSize) (message.drop blockSize)
termination_by message.length
decreasing_by
  rename_i more
  have : (message.drop blockSize).length ≠ 0 := fun none => more (List.eq_nil_of_length_eq_zero none)
  simp only [List.length_drop, blockSize] at *
  omega

/-- The longest key, in bytes. -/
def keyLimit : Nat := 64

/-- A key that is not too long. -/
structure Key where
  bytes : Bytes
  fits : bytes.length ≤ keyLimit

/-- A byte string as a key. -/
def Key.ofBytes? (b : Bytes) : Option Key :=
  if h : b.length ≤ keyLimit then some ⟨b, h⟩ else none

/-- The chain before the first block: key and digest length are mixed into the first word. -/
def start (keyLength : Nat) : Chain :=
  let parameters := (0x01010020 : UInt64) ^^^ (keyLength.toUInt64 <<< 8)
  ⟨{ initialTop with w0 := initialTop.w0 ^^^ parameters }, initialBottom⟩

/-- The key as a block of its own in front of the message; no block for the empty key. -/
def keyBlock (key : Bytes) : Bytes :=
  if key.isEmpty then [] else key ++ List.replicate (blockSize - key.length) 0

/-- The 32-byte digest of a message under a key. -/
def digestWithKey (key : Key) (message : Bytes) : Digest :=
  let chain := absorb (start key.bytes.length) 0 (keyBlock key.bytes ++ message)
  ⟨chain.top.toBytes, chain.top.length_toBytes⟩

/-- The 32-byte digest of a message. -/
def digest (message : Bytes) : Digest :=
  digestWithKey ⟨[], Nat.zero_le keyLimit⟩ message

end ShardLedger.Blake2b
