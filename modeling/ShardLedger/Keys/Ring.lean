import ShardLedger.Keyed
import ShardLedger.Keys.Service

/-!
# Key rings

A key ring is a key service in memory.  It keeps private keys by their public keys, in
the order in which they came, and public keys by their hashes.
-/

namespace ShardLedger

/-- A set of private keys. -/
structure KeyRing where
  /-- The private keys by public key. -/
  secrets : List (PublicKey × SecretKey) := []
  /-- The public keys by hash. -/
  byHash : List (Digest × PublicKey) := []

namespace KeyRing

/-- Add a private key. -/
def add (ring : KeyRing) (secret : SecretKey) : KeyRing where
  secrets := Keyed.put secret.publicKey secret ring.secrets
  byHash := Keyed.put secret.publicKey.hash secret.publicKey ring.byHash

/-- Add a private key given as bytes; the answer is its public key. -/
def importKey (ring : KeyRing) (secret : Bytes) : Except Fault (KeyRing × PublicKey) := do
  let secret ← SecretKey.ofBytes secret
  return (ring.add secret, secret.publicKey)

/-- The private key of a public key. -/
def secret? (ring : KeyRing) (key : Bytes) : Option SecretKey := do
  Keyed.get? (← FixedBytes.ofBytes? 64 key) ring.secrets

/-- The public key with a given hash. -/
def publicKey? (ring : KeyRing) (hash : Bytes) : Option PublicKey := do
  Keyed.get? (← FixedBytes.ofBytes? 32 hash) ring.byHash

/-- The public keys, oldest first. -/
def keys (ring : KeyRing) : List PublicKey :=
  Keyed.keys ring.secrets

/-- Remove a key; nothing if it is not there. -/
def remove? (ring : KeyRing) (key : Bytes) : Option KeyRing := do
  let key ← FixedBytes.ofBytes? 64 key
  let _ ← Keyed.get? key ring.secrets
  return ⟨Keyed.erase key ring.secrets, Keyed.erase (PublicKey.hash key) ring.byHash⟩

/-- Sign a message hash with the private key of a public key. -/
def sign (ring : KeyRing) (key message : Bytes) : Except Fault (FixedBytes 65) :=
  match ring.secret? key with
  | none => .error (.keyNotFound (.secretOf key))
  | some secret => do
    (← secret.sign (← Signature.messageHash message)).toBytes

/-- A key ring as a key service. -/
def service (ring : KeyRing) : KeyService where
  publicKeyOf := fun hash => .ok ((ring.publicKey? hash).map FixedBytes.bytes)
  sign := fun key message => (ring.sign key message).map FixedBytes.bytes

end KeyRing

end ShardLedger
