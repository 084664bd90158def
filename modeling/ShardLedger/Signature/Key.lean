import ShardLedger.Curve.Ecdsa
import ShardLedger.Hash.Blake2b
import ShardLedger.Hash.Ripemd160
import ShardLedger.Signature.Basic
import ShardLedger.Signature.Nonce

/-!
# Keys

Private keys are 32-byte scalars, public keys the 64 bytes of a curve point, and
account ids a short hash of a public key.  Signing is deterministic and always takes
the lower of the two possible second scalars; verifying accepts both.
-/

namespace ShardLedger

/-- The content hash of a byte string. -/
def contentHash (b : Bytes) : Digest :=
  Blake2b.digest b

/-- The hash of a byte string under a key. -/
def contentHashWithKey (b key : Bytes) : Except Fault Digest :=
  match Blake2b.Key.ofBytes? key with
  | some key => .ok (Blake2b.digestWithKey key b)
  | none => .error .badValue

/-- A private key: a scalar other than zero below the order of the curve. -/
structure SecretKey where
  scalar : Nat
  pos : 0 < scalar
  lt_order : scalar < secp256k1.n

/-- The bytes of a point: both coordinates, or zeros for the point at infinity. -/
def Point.toBytes : Point → PublicKey
  | infinity => .zero 64
  | affine x y => ⟨BigEndian.fixed 32 x ++ BigEndian.fixed 32 y, by simp⟩

namespace SecretKey

/-- Read a private key. -/
def ofBytes (b : Bytes) : Except Fault SecretKey := do
  let raw ← Datum.sized "private key" 32 b
  let scalar := BigEndian.toNat raw.bytes
  if h : 0 < scalar ∧ scalar < secp256k1.n then return ⟨scalar, h.1, h.2⟩
  else refuse .secretOutOfRange

/-- The public key of a private key. -/
def publicKey (secret : SecretKey) : PublicKey :=
  (secp256k1.mul secret.scalar secp256k1.base).toBytes

end SecretKey

namespace PublicKey

/-- Read a public key, which need not be a point of the curve. -/
def ofBytes (b : Bytes) : Except Fault PublicKey :=
  Datum.sized "public key" 64 b

/-- The point that a public key stands for. -/
def point (key : PublicKey) : Except Fault Point :=
  let x := BigEndian.toNat (key.bytes.take 32)
  let y := BigEndian.toNat (key.bytes.drop 32)
  if secp256k1.contains x y then .ok (.affine x y) else refuse .notOnCurve

/-- The hash that outputs are locked to. -/
def hash (key : PublicKey) : Digest :=
  contentHash key.bytes

/-- The account of a public key. -/
def accountId (key : PublicKey) : AccountId :=
  Ripemd160.digest (hash key).bytes

end PublicKey

namespace Signature

/-- Read a message hash. -/
def messageHash (b : Bytes) : Except Fault Digest :=
  Datum.sized "message hash" 32 b

/-- The scalars of a signature, if both are in range. -/
def scalars? (signature : Signature) : Option (Nat × Nat) :=
  let n : Int := secp256k1.n
  if 0 < signature.r ∧ signature.r < n ∧ 0 < signature.s ∧ signature.s < n then
    some (signature.r.toNat, signature.s.toNat)
  else none

/-- The two public keys that fit scalars over a message hash: for the lift with even second
coordinate, and for its negative. -/
def candidates (hash : Digest) (r s : Nat) : Except Fault (PublicKey × PublicKey) :=
  let e := BigEndian.toNat hash.bytes
  match secp256k1.evenRoot? r with
  | none => refuse .noPublicKey
  | some y =>
    let lifted := Point.affine r y
    match secp256k1.solve e r s lifted with
    | .infinity => .error .atInfinity
    | first =>
      match secp256k1.solve e r s (secp256k1.neg lifted) with
      | .infinity => .error .atInfinity
      | second => .ok (first.toBytes, second.toBytes)

/-- The public key that made a signature over a message hash. -/
def recover (hash : Bytes) (signature : Signature) : Except Fault PublicKey := do
  let hash ← messageHash hash
  match signature.scalars? with
  | none => refuse .scalarsOutOfRange
  | some (r, s) =>
    if signature.v = 0 then return (← candidates hash r s).1
    else if signature.v = 1 then return (← candidates hash r s).2
    else refuse (.badRecoveryId signature.v)

/-- Whether a signature over a message hash belongs to a public key; the recovery id has no say. -/
def verify (hash : Bytes) (signature : Signature) (key : Bytes) : Except Fault Bool := do
  let hash ← messageHash hash
  let point ← (← PublicKey.ofBytes key).point
  match signature.scalars? with
  | none => return false
  | some (r, s) =>
    match secp256k1.verifies? (BigEndian.toNat hash.bytes) r s point with
    | none => .error .atInfinity
    | some answer => return answer

/-- The scalars for the next nonce of a generator, if it is in range and neither scalar is zero. -/
def attempt? (e secret : Nat) (generator : NonceGenerator) : Option (Nat × Nat) :=
  let nonce := generator.next.1
  if 0 < nonce ∧ nonce < secp256k1.n then secp256k1.signWith? e secret nonce else none

/-- The scalars for the first of so many nonces that gives any. -/
def firstScalars? (e secret : Nat) : Nat → NonceGenerator → Option (Nat × Nat)
  | 0, _ => none
  | count + 1, generator =>
    match attempt? e secret generator with
    | some scalars => some scalars
    | none => firstScalars? e secret count generator.next.2

/-- The lower of a second scalar and its negative. -/
def lower (s : Nat) : Nat :=
  if s > secp256k1.n / 2 then secp256k1.n - s else s

/-- The signature of scalars over a message hash, with the recovery id that gives the key. -/
def withRecoveryId (hash : Digest) (key : PublicKey) (r s : Nat) : Except Fault Signature := do
  let (even, odd) ← candidates hash r s
  if even = key then return ⟨r, s, 0⟩
  else if odd = key then return ⟨r, s, 1⟩
  else refuse .noRecoveryId

/-- The signature of scalars that were found for a key, with the lower second scalar.  Without
scalars there is nothing to sign with. -/
def ofFound (hash : Digest) (key : PublicKey) : Option (Nat × Nat) → Except Fault Signature
  | none => refuse .noRecoveryId
  | some (r, s) => withRecoveryId hash key r (lower s)

end Signature

namespace SecretKey

/-- The scalars of the signature over a message hash, before the second one is lowered.  All states
of the generator are tried: without scalars after that many nonces, none would ever give any. -/
def scalars? (secret : SecretKey) (hash : Digest) : Option (Nat × Nat) :=
  Signature.firstScalars? (BigEndian.toNat hash.bytes) secret.scalar NonceGenerator.stateCount
    (.start secp256k1.n secret.scalar hash.bytes)

/-- The signature of a private key over a message hash. -/
def sign (secret : SecretKey) (hash : Digest) : Except Fault Signature :=
  Signature.ofFound hash secret.publicKey (secret.scalars? hash)

end SecretKey

/-- The signature of a private key over a message hash, both given as byte strings. -/
def Signature.sign (hash secret : Bytes) : Except Fault Signature := do
  let hash ← messageHash hash
  (← SecretKey.ofBytes secret).sign hash

end ShardLedger
