import ShardLedger.Bytes.BigEndian
import ShardLedger.Hash.Sha256

/-!
# Nonces

Signing draws its nonce from the private key and the message hash alone, by a
generator built from the keyed hash, so that the same inputs always give the same
signature.
-/

namespace ShardLedger

/-- A generator of nonces: the key and the value of a chain of keyed hashes. -/
structure NonceGenerator where
  key : Bytes
  value : Bytes

namespace NonceGenerator

/-- Hash something into the key, and move the value on. -/
def stir (g : NonceGenerator) (seed : Bytes) : NonceGenerator :=
  let key := (Sha256.hmac g.key (g.value ++ seed)).bytes
  ⟨key, (Sha256.hmac key g.value).bytes⟩

/-- The generator for a secret and a message hash, on a group of the given order. -/
def start (order secret : Nat) (hash : Bytes) : NonceGenerator :=
  let e := BigEndian.toNat hash
  let reduced := if e < order then e else e - order
  let seed := BigEndian.fixed 32 secret ++ BigEndian.fixed 32 reduced
  let blank : NonceGenerator := ⟨List.replicate 32 0, List.replicate 32 1⟩
  (blank.stir (0 :: seed)).stir (1 :: seed)

/-- The next number, and the generator behind it. -/
def next (g : NonceGenerator) : Nat × NonceGenerator :=
  let value := (Sha256.hmac g.key g.value).bytes
  (BigEndian.toNat value, stir ⟨g.key, value⟩ [0])

/-- The number of pairs of a key and a value of 32 bytes each. -/
def stateCount : Nat := Nat.pow 256 64

end NonceGenerator

end ShardLedger
