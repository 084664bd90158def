import ShardLedger.Document.Field
import ShardLedger.Signature.Key

/-!
# Asset types

An asset type is a 32-byte identifier, derived from the hash of the transaction that
minted the asset.  It starts with two fixed bytes, then carries the shard and the world
of the asset in two bytes each, and a keyed hash fills the rest.
-/

namespace ShardLedger

/-- The type of an asset. -/
abbrev AssetType := Digest

/-- An amount of an asset that somebody holds. -/
abbrev Amount := { n : Nat // 0 < n }

namespace AssetType

/-- The two bytes in front. -/
def mark : Bytes := [0x53, 0x00]

/-- The key of the hash behind the shard and the world. -/
def hashKey : Blake2b.Key :=
  ⟨BigEndian.fixed 16 0xffffffffffffffff, by decide⟩

/-- The shard of an asset. -/
def shardId (type : AssetType) : Nat :=
  BigEndian.toNat ((type.bytes.drop 2).take 2)

/-- Read an asset type. -/
def ofBytes (b : Bytes) : Except Fault AssetType :=
  Datum.sized "asset type" 32 b

/-- The type of the asset minted by a transaction with a given hash, in a shard and a world. -/
def ofMint (transactionHash : Bytes) (shardId worldId : UInt16) : AssetType :=
  let tail := (Blake2b.digestWithKey hashKey transactionHash).bytes.drop 6
  ⟨mark ++ BigEndian.fixed 2 shardId.toNat ++ BigEndian.fixed 2 worldId.toNat ++ tail, by
    simp [mark, tail]⟩

/-- The same for numbers that may not fit. -/
def ofMint? (transactionHash : Bytes) (shardId worldId : Int) : Except Fault AssetType :=
  if 0 ≤ shardId ∧ shardId < 65536 ∧ 0 ≤ worldId ∧ worldId < 65536 then
    .ok (ofMint transactionHash shardId.toNat.toUInt16 worldId.toNat.toUInt16)
  else .error .overflow

end AssetType

end ShardLedger
