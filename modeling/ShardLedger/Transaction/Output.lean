import ShardLedger.Address.Transfer
import ShardLedger.Rlp.Item
import ShardLedger.Transaction.AssetType

/-!
# Outputs

An output of a transfer puts an amount of an asset under a new spend condition.
-/

namespace ShardLedger

/-- An amount of an asset and the condition for spending it. -/
structure Output where
  lockScriptHash : Digest
  parameters : List Bytes
  assetType : AssetType
  amount : Amount
deriving DecidableEq

namespace Output

/-- Check the parts of an output. -/
def build (lockScriptHash : Bytes) (parameters : Datum) (assetType : Bytes) (amount : Datum) :
    Except Fault Output := do
  let lockScriptHash ← Datum.sized "lock script hash" 32 lockScriptHash
  let assetType ← AssetType.ofBytes assetType
  let amount ← amount.amount
  return ⟨lockScriptHash, ← parameters.rawParameters, assetType, amount⟩

/-- The output that puts an amount of an asset under a condition. -/
def ofCondition (condition : SpendCondition) (assetType : AssetType) (amount : Datum) :
    Except Fault Output := do
  return ⟨condition.lockScriptHash, condition.parameters, assetType, ← amount.amount⟩

/-- The condition for spending an output. -/
def condition (output : Output) : SpendCondition :=
  ⟨output.lockScriptHash, output.parameters⟩

/-- The encoded form. -/
def item (output : Output) : Rlp.Item :=
  .list [.bytes output.lockScriptHash.bytes, .list (output.parameters.map .bytes),
    .bytes output.assetType.bytes, .nat output.amount]

/-- An output as a document. -/
def toDatum (output : Output) : Datum :=
  .object [("lockScriptHash", .hex output.lockScriptHash.bytes),
    ("parameters", .byteLists output.parameters), ("assetType", .hex output.assetType.bytes),
    ("amount", .int output.amount.val)]

/-- Read an output. -/
def ofDatum (d : Datum) : Except Fault Output := do
  let lockScriptHash ← (← d.field "lockScriptHash").hexOf 32 "lockScriptHash"
  let parameters ← (← d.field "parameters").parameters
  let assetType ← (← d.field "assetType").hexOf 32 "assetType"
  let amount ← (← d.field "amount").unsigned "amount"
  return ⟨lockScriptHash, parameters, assetType, ← (Datum.int amount).amount⟩

end Output

end ShardLedger
