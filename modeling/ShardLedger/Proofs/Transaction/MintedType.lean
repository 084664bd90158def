import ShardLedger.Proofs.Address.Transfer
import ShardLedger.Proofs.Transaction.Mint

/-!
# Types of minted assets

A mint is only made with a shard and a world of 16 bits each, and a mint with a text creates a
type of asset: two fixed bytes, the shard, the world and the end of a keyed hash.  The scheme of
the mint and the asset that its first output becomes carry this type, and what a transfer makes
from that asset stays in the shard.
-/

namespace ShardLedger

/-! ## The bytes of a type -/

namespace AssetType

/-- The type of the assets of a mint with a given hash, in a shard and a world. -/
structure IsMintedAs (type : AssetType) (shard world : Nat) (hash : Digest) : Prop where
  /-- The fixed bytes, the shard, the world and the last 26 bytes of the keyed hash. -/
  bytes : ∃ front tail, (Blake2b.digestWithKey hashKey hash.bytes).bytes = front ++ tail ∧
    tail.length = 26 ∧
    type.bytes = [0x53, 0x00] ++ BigEndian.fixed 2 shard ++ BigEndian.fixed 2 world ++ tail
  derived : ofMint? hash.bytes shard world = .ok type
  shardId : type.shardId = shard
  worldId : BigEndian.toNat ((type.bytes.drop 4).take 2) = world

theorem bytes_ofMint (hash : Bytes) (shard world : UInt16) :
    (ofMint hash shard world).bytes =
      mark ++ (BigEndian.fixed 2 shard.toNat ++ (BigEndian.fixed 2 world.toNat ++
        (Blake2b.digestWithKey hashKey hash).bytes.drop 6)) := by
  simp only [ofMint, List.append_assoc]

theorem toNat_fixed_uint16 (n : UInt16) : BigEndian.toNat (BigEndian.fixed 2 n.toNat) = n.toNat :=
  BigEndian.toNat_fixed_of_lt n.toNat_lt

theorem isMintedAs_ofMint (hash : Digest) (shard world : UInt16) :
    (ofMint hash.bytes shard world).IsMintedAs shard.toNat world.toNat hash := by
  have hbytes := bytes_ofMint hash.bytes shard world
  have hmark : mark.length = 2 := rfl
  have hfront : (mark ++ BigEndian.fixed 2 shard.toNat).length = 4 := by
    rw [List.length_append, hmark, BigEndian.length_fixed]
  refine ⟨?_, ?_, ?_, ?_⟩
  · let digest := Blake2b.digestWithKey hashKey hash.bytes
    refine ⟨digest.bytes.take 6, digest.bytes.drop 6, (List.take_append_drop _ _).symm, ?_, rfl⟩
    rw [List.length_drop, FixedBytes.length_bytes]
  · have hshard := shard.toNat_lt
    have hworld := world.toNat_lt
    have hrange : 0 ≤ (shard.toNat : Int) ∧ (shard.toNat : Int) < 65536 ∧
        0 ≤ (world.toNat : Int) ∧ (world.toNat : Int) < 65536 := by omega
    rw [ofMint?, if_pos hrange, Int.toNat_natCast, Int.toNat_natCast]
    simp only [Nat.toUInt16, UInt16.ofNat_toNat]
  · -- The shard stands behind two bytes, the world behind four.
    rw [shardId, hbytes, List.drop_left' hmark, List.take_left' (BigEndian.length_fixed 2 _),
      toNat_fixed_uint16]
  · rw [hbytes, ← List.append_assoc, List.drop_left' hfront,
      List.take_left' (BigEndian.length_fixed 2 _), toNat_fixed_uint16]

end AssetType

/-! ## What a mint is made with -/

namespace Mint

/-- A mint is made exactly with what it consists of. -/
theorem build_eq_ok_iff {networkId shardId worldId metadata nonce : Datum} {output : MintOutput}
    {registrar : Option PlatformAddress} {mint : Mint} :
    build networkId shardId worldId metadata output registrar nonce = .ok mint ↔
      networkId = .text mint.networkId.text ∧ shardId = .int mint.shardId.toNat ∧
        worldId = .int mint.worldId.toNat ∧ metadata = mint.metadata ∧ output = mint.output ∧
        registrar = mint.registrar ∧ nonce = .int mint.nonce := by
  simp only [build, bind_eq_ok_iff, pure_eq_ok, Except.ok.injEq, NetworkId.ofDatum_eq_ok_iff,
    Datum.sixteenBits_eq_ok_iff, Datum.natural_eq_ok_iff]
  constructor
  · rintro ⟨network, rfl, shard, rfl, world, rfl, number, rfl, rfl⟩
    exact ⟨rfl, rfl, rfl, rfl, rfl, rfl, rfl⟩
  · rintro ⟨hnetwork, hshard, hworld, rfl, rfl, rfl, hnonce⟩
    exact ⟨_, hnetwork, _, hshard, _, hworld, _, hnonce, rfl⟩

theorem scheme_of_assetType {mint : Mint} {type : AssetType} (htype : mint.assetType = .ok type) :
    mint.scheme = .ok ⟨type, mint.metadata, mint.output.amountDatum, mint.registrar,
      .text mint.networkId.text⟩ := by
  rw [scheme, htype, ok_bind, pure_eq_ok]

end Mint

/-! ## Checked parts -/

theorem Datum.rawParameters_bytes (ps : List Bytes) :
    (Datum.list (ps.map .bytes)).rawParameters = .ok ps := by
  rw [rawParameters, elements_list, ok_bind]
  exact mapM_map_eq_ok fun b _ => rfl

/-- The parts of a scheme pass the checks on them. -/
theorem AssetScheme.build_self (scheme : AssetScheme) :
    build scheme.assetType.bytes scheme.metadata scheme.amount scheme.registrar scheme.networkId =
      .ok scheme := by
  rw [build, AssetType.ofBytes, Datum.sized_bytes, ok_bind, pure_eq_ok]

namespace Asset

/-- The parts of an asset pass the checks on them, and so do those of the reference to it. -/
structure IsChecked (asset : Asset) : Prop where
  parts : build asset.assetType.bytes asset.lockScriptHash.bytes
    (.list (asset.parameters.map .bytes)) (.int asset.amount.val) asset.transactionHash.bytes
    (.int asset.outputIndex) = .ok asset
  outPoint : OutPoint.build asset.transactionHash.bytes (.int asset.outputIndex)
    asset.assetType.bytes (.int asset.amount.val) (some asset.lockScriptHash.bytes)
    (some (.list (asset.parameters.map .bytes))) = .ok asset.outPoint

theorem isChecked (asset : Asset) : asset.IsChecked := by
  constructor
  · simp only [build, AssetType.ofBytes, Datum.rawParameters_bytes, Datum.sized_bytes,
      Datum.amount_int, Datum.natural_int, ok_bind, pure_eq_ok]
  · simp only [OutPoint.build, AssetType.ofBytes, Datum.rawParameters_bytes, Datum.sized_bytes,
      Datum.amount_int, Datum.natural_int, Option.mapM_some, ok_bind, pure_eq_ok]
    rfl

end Asset

/-! ## Transfers of an asset -/

namespace Transfer

/-- Whatever a transfer spends, burns or puts under a new condition belongs to one shard. -/
structure StaysIn (transfer : Transfer) (shard : Nat) : Prop where
  entries : ∀ list, ∀ entry ∈ transfer.entries list, entry.prevOut.assetType.shardId = shard
  outputs : ∀ output ∈ transfer.outputs, output.assetType.shardId = shard

end Transfer

theorem Recipient.assetType_of_output {recipient : Recipient} {assetType : AssetType}
    {networkId : Datum} {output : Output}
    (houtput : recipient.output assetType networkId = .ok output) :
    output.assetType = assetType := by
  simp only [Recipient.output, Output.ofCondition, bind_eq_ok_iff, pure_eq_ok,
    Except.ok.injEq] at houtput
  obtain ⟨condition, -, amount, -, rfl⟩ := houtput
  rfl

namespace Asset

/-- A transfer that spends an asset has one entry, for the asset, and an output for each
recipient. -/
theorem transferTo_eq_ok_iff {asset : Asset} {recipients : List Recipient} {nonce networkId : Datum}
    {transfer : Transfer} :
    asset.transferTo recipients nonce networkId = .ok transfer ↔
      recipients.mapM (Recipient.output asset.assetType networkId) = .ok transfer.outputs ∧
        transfer.inputs = [asset.entry] ∧ transfer.burns = [] ∧
        networkId = .text transfer.networkId.text ∧ nonce = .int transfer.nonce := by
  simp only [transferTo, Transfer.build, bind_eq_ok_iff, pure_eq_ok, Except.ok.injEq,
    NetworkId.ofDatum_eq_ok_iff, Datum.natural_eq_ok_iff]
  constructor
  · rintro ⟨outputs, houtputs, network, rfl, number, rfl, rfl⟩
    exact ⟨houtputs, rfl, rfl, rfl, rfl⟩
  · rintro ⟨houtputs, hinputs, hburns, hnetwork, hnonce⟩
    refine ⟨_, houtputs, _, hnetwork, _, hnonce, ?_⟩
    rw [← hinputs, ← hburns]

theorem staysIn_of_transferTo {asset : Asset} {recipients : List Recipient}
    {nonce networkId : Datum} {transfer : Transfer}
    (htransfer : asset.transferTo recipients nonce networkId = .ok transfer) :
    transfer.StaysIn asset.assetType.shardId := by
  obtain ⟨houtputs, hinputs, hburns, -, -⟩ := transferTo_eq_ok_iff.mp htransfer
  constructor
  · intro list entry hmem
    cases list with
    | inputs =>
        rw [Transfer.entries, hinputs, List.mem_singleton] at hmem
        rw [hmem]
        rfl
    | burns =>
        rw [Transfer.entries, hburns] at hmem
        cases hmem
  · intro output hmem
    obtain ⟨recipient, -, houtput⟩ := exists_of_mem_mapM houtputs hmem
    rw [Recipient.assetType_of_output houtput]

end Asset

/-! ## From the mint to the transfers of its asset -/

/-- A mint that can be made with a text creates a type of asset that carries its shard and world.
Its scheme and the asset that its first output becomes carry the same type, and every transfer
that spends the asset stays in the shard. -/
theorem Mint.type_carries_ids {networkId shardId worldId metadata nonce : Datum}
    {output : MintOutput} {registrar : Option PlatformAddress} {mint : Mint}
    (hbuild : build networkId shardId worldId metadata output registrar nonce = .ok mint)
    (htext : ∃ text, metadata = .text text) :
    ∃ (shard world : Nat) (hash : Digest) (type : AssetType),
      shardId = .int shard ∧ worldId = .int world ∧ mint.hash = .ok hash ∧
        mint.assetType = .ok type ∧ type.IsMintedAs shard world hash ∧
        (∃ scheme, mint.scheme = .ok scheme ∧
          scheme = ⟨type, metadata, output.amountDatum, registrar, networkId⟩ ∧
          AssetScheme.build type.bytes metadata output.amountDatum registrar networkId =
            .ok scheme) ∧
        ∀ amount, output.amount = some amount →
          ∃ asset, mint.mintedAsset = .ok asset ∧ asset.IsChecked ∧
            asset = ⟨type, output.lockScriptHash, output.parameters, amount, hash, 0⟩ ∧
            asset.outPoint = ⟨hash, 0, type, amount, some output.lockScriptHash,
              some output.parameters⟩ ∧
            ∀ recipients nonce networkId transfer,
              asset.transferTo recipients nonce networkId = .ok transfer →
                transfer.inputs = [{ prevOut := asset.outPoint }] ∧
                  transfer.outputs.length = recipients.length ∧ transfer.StaysIn shard := by
  obtain ⟨rfl, rfl, rfl, rfl, rfl, rfl, rfl⟩ := build_eq_ok_iff.mp hbuild
  have hmint : mint.IsText := htext
  obtain ⟨hash, hhash⟩ := hmint.exists_hash
  have htype := assetType_of_hash hhash
  have hminted := AssetType.isMintedAs_ofMint hash mint.shardId mint.worldId
  refine ⟨_, _, hash, _, rfl, rfl, hhash, htype, hminted, ?_, ?_⟩
  · have hscheme := scheme_of_assetType htype
    exact ⟨_, hscheme, rfl, AssetScheme.build_self ⟨_, _, _, _, _⟩⟩
  · intro amount hamount
    refine ⟨_, mintedAsset_of_hash hamount hhash, Asset.isChecked _, rfl, rfl, ?_⟩
    intro recipients nonce networkId transfer htransfer
    obtain ⟨houtputs, hinputs, -, -, -⟩ := Asset.transferTo_eq_ok_iff.mp htransfer
    have hstays := Asset.staysIn_of_transferTo htransfer
    rw [hminted.shardId] at hstays
    exact ⟨hinputs, (mapM_eq_ok_iff.mp houtputs).length_eq.symm, hstays⟩

/-- The first output of a mint of a hundred units under the lock script hash of zeros. -/
def hundredUnits : MintOutput :=
  ⟨.zero 32, [], some ⟨100, Nat.succ_pos 99⟩⟩

/-- A recipient of a hundred units under the lock script hash of zeros. -/
def hundredReceiver : Recipient :=
  ⟨.transfer ⟨NetworkId.standard.toNetwork, .lockScriptHash, .zero 32⟩, .int 100⟩

theorem Mint.type_carries_ids_gold :
    ∃ mint, build (.text "tc") (.int 258) (.int 65535) (.text "gold") hundredUnits none (.int 0) =
        .ok mint ∧
      ∃ asset, mint.mintedAsset = .ok asset ∧ asset.assetType.shardId = 258 ∧
        asset.assetType.bytes.take 6 = [0x53, 0x00, 0x01, 0x02, 0xff, 0xff] ∧
        ∃ transfer, asset.transferTo [hundredReceiver] (.int 0) (.text "tc") = .ok transfer ∧
          transfer.outputs.length = 1 ∧ transfer.StaysIn 258 := by
  let mint : Mint := ⟨.standard, 258, 65535, .text "gold", hundredUnits, none, 0⟩
  have hbuild : build (.text "tc") (.int 258) (.int 65535) (.text "gold") hundredUnits none
      (.int 0) = .ok mint := build_eq_ok_iff.mpr ⟨rfl, rfl, rfl, rfl, rfl, rfl, rfl⟩
  obtain ⟨shard, world, hash, type, hshard, hworld, -, -, hminted, -, hasset⟩ :=
    type_carries_ids hbuild ⟨"gold", rfl⟩
  obtain rfl : shard = 258 := (Int.ofNat.inj (Datum.int.inj hshard)).symm
  obtain rfl : world = 65535 := (Int.ofNat.inj (Datum.int.inj hworld)).symm
  obtain ⟨asset, hrealized, -, hparts, -, htransfers⟩ := hasset ⟨100, Nat.succ_pos 99⟩ rfl
  have htype : asset.assetType = type := by rw [hparts]
  obtain ⟨front, tail, -, -, hbytes⟩ := hminted.bytes
  let output : Output := ⟨.zero 32, [], type, ⟨100, Nat.succ_pos 99⟩⟩
  have houtput : [hundredReceiver].mapM (Recipient.output asset.assetType (.text "tc")) =
      .ok [output] := by
    rw [htype]
    rfl
  have htransfer : asset.transferTo [hundredReceiver] (.int 0) (.text "tc") =
      .ok ⟨[], [asset.entry], [output], .standard, 0⟩ :=
    Asset.transferTo_eq_ok_iff.mpr ⟨houtput, rfl, rfl, rfl, rfl⟩
  obtain ⟨-, hlength, hstays⟩ := htransfers _ _ _ _ htransfer
  refine ⟨mint, hbuild, asset, hrealized, ?_, ?_, _, htransfer, hlength, hstays⟩
  · rw [htype, hminted.shardId]
  · rw [htype, hbytes]
    rfl

end ShardLedger
