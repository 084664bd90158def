import ShardLedger.Bytes.Basic

/-!
# Machine words and bytes

The hash functions read and write 32- and 64-bit words in either byte order.
-/

namespace ShardLedger.Hash

/-- Rotate a 32-bit word to the left. -/
def rotateLeft32 (x n : UInt32) : UInt32 :=
  (x <<< n) ||| (x >>> (32 - n))

/-- Rotate a 32-bit word to the right. -/
def rotateRight32 (x n : UInt32) : UInt32 :=
  (x >>> n) ||| (x <<< (32 - n))

/-- Rotate a 64-bit word to the right. -/
def rotateRight64 (x n : UInt64) : UInt64 :=
  (x >>> n) ||| (x <<< (64 - n))

/-- The 32-bit words of a byte string, least significant byte first. -/
def words32Little : Bytes → List UInt32
  | a :: b :: c :: d :: rest =>
    (a.toUInt32 ||| (b.toUInt32 <<< 8) ||| (c.toUInt32 <<< 16) ||| (d.toUInt32 <<< 24))
      :: words32Little rest
  | _ => []

/-- The 32-bit words of a byte string, most significant byte first. -/
def words32Big : Bytes → List UInt32
  | a :: b :: c :: d :: rest =>
    ((a.toUInt32 <<< 24) ||| (b.toUInt32 <<< 16) ||| (c.toUInt32 <<< 8) ||| d.toUInt32)
      :: words32Big rest
  | _ => []

/-- The 64-bit words of a byte string, least significant byte first. -/
def words64Little : Bytes → List UInt64
  | a :: b :: c :: d :: e :: f :: g :: h :: rest =>
    (a.toUInt64 ||| (b.toUInt64 <<< 8) ||| (c.toUInt64 <<< 16) ||| (d.toUInt64 <<< 24)
      ||| (e.toUInt64 <<< 32) ||| (f.toUInt64 <<< 40) ||| (g.toUInt64 <<< 48)
      ||| (h.toUInt64 <<< 56)) :: words64Little rest
  | _ => []

/-- The bytes of a 32-bit word, least significant first. -/
def bytes32Little (x : UInt32) : Bytes :=
  [x.toUInt8, (x >>> 8).toUInt8, (x >>> 16).toUInt8, (x >>> 24).toUInt8]

/-- The bytes of a 32-bit word, most significant first. -/
def bytes32Big (x : UInt32) : Bytes :=
  [(x >>> 24).toUInt8, (x >>> 16).toUInt8, (x >>> 8).toUInt8, x.toUInt8]

/-- The bytes of a 64-bit word, least significant first. -/
def bytes64Little (x : UInt64) : Bytes :=
  [x.toUInt8, (x >>> 8).toUInt8, (x >>> 16).toUInt8, (x >>> 24).toUInt8,
    (x >>> 32).toUInt8, (x >>> 40).toUInt8, (x >>> 48).toUInt8, (x >>> 56).toUInt8]

/-- The bytes of a 64-bit number, most significant first. -/
def bytes64Big (x : UInt64) : Bytes :=
  (bytes64Little x).reverse

/-- A one bit, then zeros up to the last eight bytes of a 64-byte block: what the hashes with
32-bit words put between a message of `length` bytes and the count of its bits. -/
def padding (length : Nat) : Bytes :=
  0x80 :: List.replicate ((119 - length % 64) % 64) 0

/-- Feed the blocks of a message to a compression function, one after the other. -/
def absorb {σ : Type} (blockSize : Nat) (compress : σ → Bytes → σ) (state : σ) (message : Bytes) :
    σ :=
  if blockSize = 0 ∨ message = [] then state
  else
    absorb blockSize compress (compress state (message.take blockSize)) (message.drop blockSize)
termination_by message.length
decreasing_by
  rename_i more
  have := List.length_pos_iff.mpr fun empty => more (.inr empty)
  have : blockSize ≠ 0 := fun none => more (.inl none)
  simp only [List.length_drop]
  omega

end ShardLedger.Hash
