import ShardLedger.Transaction.Asset

/-!
# Mints

A mint creates a new type of asset and its first output.  The type is derived from the
hash of the mint, and the scheme repeats what the mint says about the type.  A mint
describes its asset in free-form metadata: what is not text or has no encoding only
comes to light when the mint is encoded.
-/

namespace ShardLedger

/-- The first output of a new type of asset; without an amount, the supply is open. -/
structure MintOutput where
  lockScriptHash : Digest
  parameters : List Bytes
  amount : Option Amount
deriving DecidableEq

/-- A transaction that creates a type of asset. -/
structure Mint where
  networkId : NetworkId
  shardId : UInt16
  worldId : UInt16
  metadata : Datum
  output : MintOutput
  registrar : Option PlatformAddress
  nonce : Nat
deriving DecidableEq

/-- The description of a type of asset. -/
structure AssetScheme where
  assetType : AssetType
  metadata : Datum
  amount : Datum
  registrar : Option PlatformAddress
  networkId : Datum
deriving DecidableEq

/-- An address as a document, `null` if there is none. -/
def PlatformAddress.orNull (address : Option PlatformAddress) : Datum :=
  match address with
  | some address => .text address.toText
  | none => .null

namespace MintOutput

/-- Check an amount that may be open. -/
def amountOrNull : Datum → Except Fault (Option Amount)
  | .null => .ok none
  | other => other.amount.map some

/-- Check the parts of a first output. -/
def build (lockScriptHash : Bytes) (parameters amount : Datum) : Except Fault MintOutput := do
  let lockScriptHash ← Datum.sized "lock script hash" 32 lockScriptHash
  let amount ← amountOrNull amount
  return ⟨lockScriptHash, ← parameters.rawParameters, amount⟩

/-- The first output under a condition. -/
def ofCondition (condition : SpendCondition) (amount : Datum) : Except Fault MintOutput := do
  return ⟨condition.lockScriptHash, condition.parameters, ← amountOrNull amount⟩

/-- The amount as a document. -/
def amountDatum (output : MintOutput) : Datum :=
  match output.amount with
  | some amount => .int amount.val
  | none => .null

/-- A first output as a document. -/
def toDatum (output : MintOutput) : Datum :=
  .object [("lockScriptHash", .hex output.lockScriptHash.bytes),
    ("parameters", .byteLists output.parameters), ("amount", output.amountDatum)]

end MintOutput

namespace Mint

/-- The code in front of an encoded mint. -/
def code : Nat := 3

/-- Check the network, the ids and the nonce of a mint. -/
def build (networkId shardId worldId metadata : Datum) (output : MintOutput)
    (registrar : Option PlatformAddress) (nonce : Datum) : Except Fault Mint := do
  let networkId ← NetworkId.ofDatum networkId
  let shardId ← shardId.sixteenBits "shard id"
  let worldId ← worldId.sixteenBits "world id"
  return ⟨networkId, shardId, worldId, metadata, output, registrar, ← nonce.natural "nonce"⟩

/-- The encoded form, with metadata that have been encoded already. -/
def itemWith (mint : Mint) (metadata : Rlp.Item) : Rlp.Item :=
  let output := mint.output
  .list [.nat code, .text mint.networkId.text, .nat mint.shardId.toNat, .nat mint.worldId.toNat,
    metadata, .bytes output.lockScriptHash.bytes, .list (output.parameters.map .bytes),
    .list (output.amount.map fun n => Rlp.Item.nat n.val).toList,
    .list (mint.registrar.map fun a => Rlp.Item.bytes a.accountId.bytes).toList, .nat mint.nonce]

/-- The encoded form. -/
def item (mint : Mint) : Except Fault Rlp.Item :=
  match Rlp.normalize mint.metadata with
  | .ok metadata => .ok (mint.itemWith metadata)
  | .error flaw => refuse (.rlp flaw)

/-- The encoding of a mint. -/
def encode (mint : Mint) : Except Fault Bytes :=
  mint.item.map Rlp.Item.encode

/-- The hash of a mint. -/
def hash (mint : Mint) : Except Fault Digest :=
  mint.encode.map contentHash

/-- The type of asset that a mint creates. -/
def assetType (mint : Mint) : Except Fault AssetType := do
  return AssetType.ofMint (← mint.hash).bytes mint.shardId mint.worldId

/-- The asset that the first output of a mint becomes. -/
def mintedAsset (mint : Mint) : Except Fault Asset :=
  match mint.output.amount with
  | none => refuse .noFixedAmount
  | some amount => do
    let hash ← mint.hash
    return ⟨AssetType.ofMint hash.bytes mint.shardId mint.worldId, mint.output.lockScriptHash,
      mint.output.parameters, amount, hash, 0⟩

/-- The description of the type that a mint creates. -/
def scheme (mint : Mint) : Except Fault AssetScheme := do
  return ⟨← mint.assetType, mint.metadata, mint.output.amountDatum, mint.registrar,
    .text mint.networkId.text⟩

/-- A mint as a document. -/
def toDatum (mint : Mint) : Datum :=
  .object [("type", .text "assetMint"), ("data", .object [
    ("networkId", .text mint.networkId.text), ("shardId", .int mint.shardId.toNat),
    ("worldId", .int mint.worldId.toNat), ("metadata", mint.metadata),
    ("output", mint.output.toDatum), ("registrar", PlatformAddress.orNull mint.registrar),
    ("nonce", .int mint.nonce)])]

/-- Read a mint, with or without its envelope. -/
def ofDatum (d : Datum) : Except Fault Mint := do
  let body ← d.fieldOr "data" d
  let output ← body.field "output"
  let amount ← output.optional "amount"
  let registrar ← body.optional "registrar"
  let networkId ← body.field "networkId"
  let shardId ← (← body.field "shardId").unsigned "shardId"
  let worldId ← (← body.field "worldId").unsigned "worldId"
  let metadata ← body.field "metadata"
  let lockScriptHash ← (← output.field "lockScriptHash").hexOf 32 "lockScriptHash"
  let parameters ← (← output.field "parameters").parameters
  let amount ← Datum.optionalUnsigned "amount" amount
  let amount ← amount.mapM fun n : Nat => (Datum.int n).amount
  let registrar ← registrar.mapM (PlatformAddress.parse .null)
  let nonce ← (← body.fieldOr "nonce" (.int 0)).unsigned "nonce"
  build networkId (.int shardId) (.int worldId) metadata ⟨lockScriptHash, parameters, amount⟩
    registrar (.int nonce)

end Mint

namespace AssetScheme

/-- Check the parts of a scheme. -/
def build (assetType : Bytes) (metadata amount : Datum) (registrar : Option PlatformAddress)
    (networkId : Datum) : Except Fault AssetScheme := do
  return ⟨← AssetType.ofBytes assetType, metadata, amount, registrar, networkId⟩

/-- A scheme as a document. -/
def toDatum (scheme : AssetScheme) : Datum :=
  .object [("assetType", .hex scheme.assetType.bytes), ("metadata", scheme.metadata),
    ("amount", scheme.amount), ("registrar", PlatformAddress.orNull scheme.registrar),
    ("networkId", scheme.networkId)]

/-- Read a scheme. -/
def ofDatum (d : Datum) : Except Fault AssetScheme := do
  let amount ← d.optional "amount"
  let registrar ← d.optional "registrar"
  let assetType ← (← d.field "assetType").hexOf 32 "assetType"
  let metadata ← d.field "metadata"
  let amount ← Datum.optionalUnsigned "amount" amount
  let registrar ← registrar.mapM (PlatformAddress.parse .null)
  return ⟨assetType, metadata, .numberOrNull amount, registrar, ← d.field "networkId"⟩

end AssetScheme

end ShardLedger
