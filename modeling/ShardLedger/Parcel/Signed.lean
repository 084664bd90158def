import ShardLedger.Parcel.Basic

/-!
# Signed parcels

A signed parcel carries the signature over the hash of the parcel inside it, and may
say where it was included.  Neither the signature nor the placement is checked when a
signed parcel is put together; the signer's key comes back from the signature.
-/

namespace ShardLedger

/-- Where a parcel has been included, as far as that is known. -/
structure Placement where
  blockNumber : Datum := .null
  blockHash : Option Digest := none
  parcelIndex : Datum := .null
deriving DecidableEq

/-- Check the block hash of a placement. -/
def Placement.build (blockNumber : Datum) (blockHash : Option Bytes) (parcelIndex : Datum) :
    Except Fault Placement := do
  return ⟨blockNumber, ← blockHash.mapM (Datum.sized "block hash" 32), parcelIndex⟩

/-- A parcel and a signature. -/
structure SignedParcel where
  unsigned : Parcel
  signature : Signature
  placement : Placement
deriving DecidableEq

namespace SignedParcel

/-- Put a parcel, a signature and a placement together. -/
def ofSignature (unsigned : Parcel) (signature : Signature) (blockNumber : Datum)
    (blockHash : Option Bytes) (parcelIndex : Datum) : Except Fault SignedParcel := do
  return ⟨unsigned, signature, ← Placement.build blockNumber blockHash parcelIndex⟩

/-- The encoded form: that of the parcel, and the signature behind it. -/
def item (signed : SignedParcel) : Except Fault Rlp.Item := do
  let (nonce, fee) ← signed.unsigned.settled
  let signature ← signed.signature.toBytes
  signed.unsigned.itemWith nonce fee [.bytes signature.bytes]

/-- The encoding of a signed parcel. -/
def encode (signed : SignedParcel) : Except Fault Bytes :=
  signed.item.map Rlp.Item.encode

/-- The hash of a signed parcel. -/
def hash (signed : SignedParcel) : Except Fault Digest :=
  signed.encode.map contentHash

/-- The public key that signed. -/
def signerKey (signed : SignedParcel) : Except Fault PublicKey := do
  signed.signature.recover (← signed.unsigned.hash).bytes

/-- The account that signed. -/
def signerAccountId (signed : SignedParcel) : Except Fault AccountId :=
  signed.signerKey.map PublicKey.accountId

/-- The address of the account that signed, on the network of the parcel. -/
def signerAddress (signed : SignedParcel) : Except Fault PlatformAddress := do
  return ⟨signed.unsigned.networkId.toNetwork, ← signed.signerAccountId⟩

/-- A signed parcel as a document. -/
def toDatum (signed : SignedParcel) : Except Fault Datum := do
  let fields ← signed.unsigned.fields
  let signature ← signed.signature.toText
  let placement := signed.placement
  let blockHash : Datum := match placement.blockHash with
    | some hash => .hex hash.bytes
    | none => .null
  return .object (fields ++ [("sig", .text signature), ("blockNumber", placement.blockNumber),
    ("blockHash", blockHash), ("parcelIndex", placement.parcelIndex),
    ("hash", .hex (← signed.hash).bytes)])

/-- Read a signed parcel; its hash is not trusted but computed anew. -/
def ofDatum (d : Datum) : Except Fault SignedParcel := do
  match ← d.optional "sig" with
  | none => .error (.missingField .signature)
  | some signature =>
    let signature ← Signature.parse signature
    let blockHash ← d.optional "blockHash"
    let unsigned ← Parcel.ofDatum d
    let blockNumber ← Datum.optionalUnsigned "blockNumber" (← d.optional "blockNumber")
    let blockHash ← blockHash.mapM (Datum.hexOf 32 "blockHash")
    let parcelIndex ← Datum.optionalUnsigned "parcelIndex" (← d.optional "parcelIndex")
    return ⟨unsigned, signature, .numberOrNull blockNumber, blockHash, .numberOrNull parcelIndex⟩

end SignedParcel

/-- Sign a parcel with a private key and put the signed parcel together. -/
def Parcel.sign (parcel : Parcel) (secret : Bytes) (blockNumber : Datum) (blockHash : Option Bytes)
    (parcelIndex : Datum) : Except Fault SignedParcel := do
  let signature ← Signature.sign (← parcel.hash).bytes secret
  SignedParcel.ofSignature parcel signature blockNumber blockHash parcelIndex

end ShardLedger
