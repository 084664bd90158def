import ShardLedger.Rlp.Item
import ShardLedger.Transaction.AssetType

/-!
# Out points

An out point refers to one output of an earlier transaction.  It repeats the type and
the amount of what the output holds.  For signing it also records how the output is
locked; that part never enters an encoding.
-/

namespace ShardLedger

/-- A reference to an output of an earlier transaction. -/
structure OutPoint where
  transactionHash : Digest
  index : Nat
  assetType : AssetType
  amount : Amount
  lockScriptHash : Option Digest
  parameters : Option (List Bytes)
deriving DecidableEq

namespace OutPoint

/-- Check the parts of an out point. -/
def build (transactionHash : Bytes) (index : Datum) (assetType : Bytes) (amount : Datum)
    (lockScriptHash : Option Bytes) (parameters : Option Datum) : Except Fault OutPoint := do
  let transactionHash ← Datum.sized "transaction hash" 32 transactionHash
  let assetType ← AssetType.ofBytes assetType
  let amount ← amount.amount
  let index ← index.natural "output index"
  let lockScriptHash ← lockScriptHash.mapM (Datum.sized "lock script hash" 32)
  let parameters ← parameters.mapM Datum.rawParameters
  return ⟨transactionHash, index, assetType, amount, lockScriptHash, parameters⟩

/-- The encoded form, without the lock. -/
def item (point : OutPoint) : Rlp.Item :=
  .list [.bytes point.transactionHash.bytes, .nat point.index, .bytes point.assetType.bytes,
    .nat point.amount]

/-- The fields that every out point has. -/
def commonFields (point : OutPoint) : List (String × Datum) :=
  [("transactionHash", .hex point.transactionHash.bytes), ("index", .int point.index),
    ("assetType", .hex point.assetType.bytes), ("amount", .int point.amount.val)]

/-- An out point as a document; what is not recorded of the lock is left out. -/
def toDatum (point : OutPoint) : Datum :=
  .object (point.commonFields
    ++ (point.lockScriptHash.map fun h => ("lockScriptHash", Datum.hex h.bytes)).toList
    ++ (point.parameters.map fun ps => ("parameters", Datum.byteLists ps)).toList)

/-- Read an out point. -/
def ofDatum (d : Datum) : Except Fault OutPoint := do
  let lockScriptHash ← d.optional "lockScriptHash"
  let parameters ← d.optional "parameters"
  let transactionHash ← (← d.field "transactionHash").hexOf 32 "transactionHash"
  let index ← (← d.field "index").unsigned "index"
  let assetType ← (← d.field "assetType").hexOf 32 "assetType"
  let amount ← (← d.field "amount").unsigned "amount"
  let lockScriptHash ← lockScriptHash.mapM (Datum.hexOf 32 "lockScriptHash")
  let parameters ← parameters.mapM Datum.parameters
  return ⟨transactionHash, index, assetType, ← (Datum.int amount).amount, lockScriptHash, parameters⟩

end OutPoint

end ShardLedger
