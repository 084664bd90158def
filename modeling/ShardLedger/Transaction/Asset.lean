import ShardLedger.Transaction.Entry
import ShardLedger.Transaction.Output

/-!
# Assets

An asset is an output that has come into being: what it holds, how it is locked, and
the transaction and position that created it.
-/

namespace ShardLedger

/-- An output that can be spent. -/
structure Asset where
  assetType : AssetType
  lockScriptHash : Digest
  parameters : List Bytes
  amount : Amount
  transactionHash : Digest
  outputIndex : Nat
deriving DecidableEq

namespace Asset

/-- Check the parts of an asset. -/
def build (assetType lockScriptHash : Bytes) (parameters amount : Datum) (transactionHash : Bytes)
    (outputIndex : Datum) : Except Fault Asset := do
  let parameters ← parameters.rawParameters
  let transactionHash ← Datum.sized "transaction hash" 32 transactionHash
  let assetType ← AssetType.ofBytes assetType
  let amount ← amount.amount
  let outputIndex ← outputIndex.natural "output index"
  let lockScriptHash ← Datum.sized "lock script hash" 32 lockScriptHash
  return ⟨assetType, lockScriptHash, parameters, amount, transactionHash, outputIndex⟩

/-- The reference to an asset, with its lock recorded. -/
def outPoint (asset : Asset) : OutPoint where
  transactionHash := asset.transactionHash
  index := asset.outputIndex
  assetType := asset.assetType
  amount := asset.amount
  lockScriptHash := some asset.lockScriptHash
  parameters := some asset.parameters

/-- The entry that spends an asset, without scripts so far. -/
def entry (asset : Asset) : Entry where
  prevOut := asset.outPoint

/-- An asset as a document. -/
def toDatum (asset : Asset) : Datum :=
  .object [("asset_type", .hex asset.assetType.bytes),
    ("lock_script_hash", .hex asset.lockScriptHash.bytes),
    ("parameters", .byteLists asset.parameters), ("amount", .int asset.amount.val),
    ("transactionHash", .hex asset.transactionHash.bytes),
    ("transactionOutputIndex", .int asset.outputIndex)]

/-- Read an asset. -/
def ofDatum (d : Datum) : Except Fault Asset := do
  let assetType ← (← d.field "asset_type").hexOf 32 "asset_type"
  let lockScriptHash ← (← d.field "lock_script_hash").hexOf 32 "lock_script_hash"
  let parameters ← (← d.field "parameters").parameters
  let amount ← (← d.field "amount").unsigned "amount"
  let transactionHash ← (← d.field "transactionHash").hexOf 32 "transactionHash"
  let outputIndex ← (← d.field "transactionOutputIndex").unsigned "transactionOutputIndex"
  return ⟨assetType, lockScriptHash, parameters, ← (Datum.int amount).amount, transactionHash,
    outputIndex⟩

end Asset

end ShardLedger
