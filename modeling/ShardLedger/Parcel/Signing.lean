import ShardLedger.Keys.Ring
import ShardLedger.Parcel.Signed

/-!
# Signing parcels

The steps of signing a parcel can be taken one by one: make the signature, attach it, and
recover the signer.  Or a key service is asked to sign the hash of the parcel, and its answer
is only taken if the public key that comes back from it is the one that was asked for.
-/

namespace ShardLedger

namespace Parcel

/-- The signature of a private key over a parcel. -/
def signature (parcel : Parcel) (secret : Bytes) : Except Fault Signature := do
  Signature.sign (← parcel.hash).bytes secret

/-- Attach a signature and a placement to a parcel. -/
def withSignature (parcel : Parcel) (signature : Signature) (blockNumber : Datum)
    (blockHash : Option Bytes) (parcelIndex : Datum) : Except Fault SignedParcel :=
  SignedParcel.ofSignature parcel signature blockNumber blockHash parcelIndex

/-- Sign a parcel through a key service. -/
def signWith (parcel : Parcel) (service : KeyService) (key : Bytes) :
    Except Fault SignedParcel := do
  let message ← parcel.hash
  let signature ← Signature.ofBytes (← service.sign key message.bytes)
  let signer ← signature.recover message.bytes
  if signer.bytes ≠ key then .error (.unauthorized .otherSigner)
  else SignedParcel.ofSignature parcel signature .null none .null

end Parcel

/-- The public key that signed a parcel, recovered from it. -/
def recoverSignerKey (signed : SignedParcel) : Except Fault PublicKey := do
  signed.signature.recover (← signed.unsigned.hash).bytes

/-- The account of the public key that signed a parcel, recovered from it. -/
def recoverSignerAccountId (signed : SignedParcel) : Except Fault AccountId :=
  (recoverSignerKey signed).map PublicKey.accountId

end ShardLedger
