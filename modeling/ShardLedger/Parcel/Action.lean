import ShardLedger.Transaction.Basic

/-!
# Actions

An action is what a parcel does: it applies asset transactions to a shard, moves money,
registers a key, or creates a shard and names those who own or use it.
-/

namespace ShardLedger

/-- What a parcel does. -/
inductive Action where
  /-- Apply asset transactions. -/
  | changeShardState (transactions : List Transaction)
  /-- Move an amount from the signer's account to another one. -/
  | payment (receiver : AccountId) (amount : Nat)
  /-- Register a second key that may sign for the account. -/
  | setRegularKey (key : PublicKey)
  /-- Create a shard that the signer owns. -/
  | createShard
  /-- Replace the owners of a shard. -/
  | setShardOwners (shardId : UInt16) (owners : List PlatformAddress)
  /-- Replace the users of a shard. -/
  | setShardUsers (shardId : UInt16) (users : List PlatformAddress)
deriving DecidableEq

namespace Action

/-- The code in front of an encoded action. -/
def code : Action → Nat
  | changeShardState _ => 1
  | payment _ _ => 2
  | setRegularKey _ => 3
  | createShard => 4
  | setShardOwners _ _ => 5
  | setShardUsers _ _ => 6

/-- Check a payment. -/
def buildPayment (receiver : Bytes) (amount : Datum) : Except Fault Action :=
  match FixedBytes.ofBytes? 20 receiver with
  | some receiver => return payment receiver (← amount.natural "amount")
  | none => refuse (.receiverLength receiver.length)

/-- Check a regular key. -/
def buildRegularKey (key : Bytes) : Except Fault Action :=
  match FixedBytes.ofBytes? 64 key with
  | some key => .ok (setRegularKey key)
  | none => refuse (.regularKeyLength key.length)

/-- Check the owners of a shard. -/
def buildShardOwners (shardId : Datum) (owners : List PlatformAddress) : Except Fault Action := do
  return setShardOwners (← shardId.sixteenBits "shard id") owners

/-- Check the users of a shard. -/
def buildShardUsers (shardId : Datum) (users : List PlatformAddress) : Except Fault Action := do
  return setShardUsers (← shardId.sixteenBits "shard id") users

/-- The items behind the code in an encoded action. -/
def contents : Action → Except Fault (List Rlp.Item)
  | changeShardState transactions => do
    return [.list (← transactions.mapM Transaction.item)]
  | payment receiver amount => .ok [.bytes receiver.bytes, .nat amount]
  | setRegularKey key => .ok [.bytes key.bytes]
  | createShard => .ok []
  | setShardOwners shardId owners =>
    .ok [.nat shardId.toNat, .list (owners.map fun a => .bytes a.accountId.bytes)]
  | setShardUsers shardId users =>
    .ok [.nat shardId.toNat, .list (users.map fun a => .bytes a.accountId.bytes)]

/-- The encoded form. -/
def item (action : Action) : Except Fault Rlp.Item := do
  return .list (.nat action.code :: (← action.contents))

end Action

/-- Addresses as a document. -/
def Datum.addresses (xs : List PlatformAddress) : Datum :=
  .list (xs.map fun a => .text a.toText)

namespace Action

/-- An action as a document. -/
def toDatum : Action → Except Fault Datum
  | changeShardState transactions =>
    .ok (.object [("action", .text "changeShardState"),
      ("transactions", .list (transactions.map Transaction.toDatum))])
  | payment receiver amount => do
    return .object [("action", .text "payment"), ("receiver", .hex receiver.bytes),
      ("amount", ← Datum.numeral amount)]
  | setRegularKey key =>
    .ok (.object [("action", .text "setRegularKey"), ("key", .hex key.bytes)])
  | createShard => .ok (.object [("action", .text "createShard")])
  | setShardOwners shardId owners =>
    .ok (.object [("action", .text "setShardOwners"), ("shardId", .int shardId.toNat),
      ("owners", .addresses owners)])
  | setShardUsers shardId users =>
    .ok (.object [("action", .text "setShardUsers"), ("shardId", .int shardId.toNat),
      ("users", .addresses users)])

/-- Read a list of platform addresses. -/
def addresses (d : Datum) : Except Fault (List PlatformAddress) := do
  (← d.elements).mapM (PlatformAddress.parse .null)

/-- Read an action. -/
def ofDatum (d : Datum) : Except Fault Action := do
  let kind ← d.fieldOr "action" .null
  match kind with
  | .text "changeShardState" =>
    return changeShardState (← (← (← d.field "transactions").elements).mapM Transaction.ofDatum)
  | .text "payment" =>
    let receiver ← (← d.field "receiver").hexOf 20 "receiver"
    return payment receiver (← (← d.field "amount").unsigned "amount")
  | .text "setRegularKey" =>
    return setRegularKey (← (← d.field "key").hexOf 64 "key")
  | .text "createShard" => return createShard
  | .text "setShardOwners" =>
    let shardId ← (← d.field "shardId").unsigned "shardId"
    buildShardOwners (.int shardId) (← addresses (← d.field "owners"))
  | .text "setShardUsers" =>
    let shardId ← (← d.field "shardId").unsigned "shardId"
    buildShardUsers (.int shardId) (← addresses (← d.field "users"))
  | _ => refuse (.unknownAction kind)

end Action

end ShardLedger
