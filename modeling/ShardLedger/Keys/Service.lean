import ShardLedger.Signature.Key

/-!
# Key services

A key service holds private keys and never shows them: it tells the public key for a
hash, and signs message hashes for a public key.  Nothing is known about its answers,
so whoever uses one has to check them.
-/

namespace ShardLedger

/-- Something that signs on behalf of its keys. -/
structure KeyService where
  /-- The public key with a given hash, if the service has it. -/
  publicKeyOf : Bytes → Except Fault (Option Bytes)
  /-- The signature for a public key over a message. -/
  sign : Bytes → Bytes → Except Fault Bytes

end ShardLedger
