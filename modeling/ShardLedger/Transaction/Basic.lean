import ShardLedger.Transaction.Mint
import ShardLedger.Transaction.Transfer

/-!
# Asset transactions

An asset transaction is a mint or a transfer; the `type` field of its document tells
which.
-/

namespace ShardLedger

/-- A transaction on assets. -/
inductive Transaction where
  | mint (mint : Mint)
  | transfer (transfer : Transfer)
deriving DecidableEq

namespace Transaction

/-- The encoded form. -/
def item : Transaction → Except Fault Rlp.Item
  | mint m => m.item
  | transfer t => .ok t.item

/-- The hash of a transaction. -/
def hash : Transaction → Except Fault Digest
  | mint m => m.hash
  | transfer t => .ok t.hash

/-- A transaction as a document. -/
def toDatum : Transaction → Datum
  | mint m => m.toDatum
  | transfer t => t.toDatum

/-- Read a transaction. -/
def ofDatum (d : Datum) : Except Fault Transaction := do
  let type ← d.fieldOr "type" .null
  if type = .text "assetMint" then return mint (← Mint.ofDatum d)
  else if type = .text "assetTransfer" then return transfer (← Transfer.ofDatum d)
  else refuse (.unknownTransaction type)

end Transaction

end ShardLedger
