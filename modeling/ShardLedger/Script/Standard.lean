import ShardLedger.Script.Instruction
import ShardLedger.Signature.Key

/-!
# Standard scripts

Outputs are usually locked to the hash of a public key, which is their only parameter.
The lock script hashes the public key that the unlock script pushed, compares it with
the parameter, and leaves it to the signature check whether the asset is spent.  Its
burning variant goes on to burn the asset instead.
-/

namespace ShardLedger.Script

/-- The instructions that pay to the hash of a public key. -/
def payToKeyProgram : List Instruction :=
  [.unary .copy 1, .plain .blake256, .plain .eq, .unary .jumpIfFalse 0xff, .plain .checkSignature]

/-- The instructions that burn with a public key's signature. -/
def burnWithKeyProgram : List Instruction :=
  payToKeyProgram ++ [.unary .jumpIfFalse 0xff, .plain .burn]

/-- The lock script that pays to the hash of a public key. -/
def payToKey : Bytes :=
  payToKeyProgram.flatMap Instruction.spell

/-- The lock script that burns with a public key's signature. -/
def burnWithKey : Bytes :=
  burnWithKeyProgram.flatMap Instruction.spell

/-- The hash of the paying lock script. -/
def payToKeyHash : Digest :=
  contentHash payToKey

/-- The hash of the burning lock script. -/
def burnWithKeyHash : Digest :=
  contentHash burnWithKey

/-- Whether a lock script is one of the two standard ones. -/
def isStandard (lockScript : Bytes) : Bool :=
  lockScript = payToKey || lockScript = burnWithKey

/-- The script that unlocks either standard script: it pushes a signature and a public key. -/
def unlockWith (signature : FixedBytes 65) (key : PublicKey) : Bytes :=
  (Instruction.pushBytes signature.bytes).spell ++ (Instruction.pushBytes key.bytes).spell

/-- The script that unlocks either standard script, from byte strings of any length. -/
def unlockScript (signature key : Bytes) : Except Fault Bytes := do
  let signature ← Datum.sized "signature" 65 signature
  let key ← PublicKey.ofBytes key
  return unlockWith signature key

end ShardLedger.Script
