import ShardLedger.Parcel.Action

/-!
# Parcels

A parcel is the envelope of one action.  Its nonce and its fee may be left open while it
is put together, but it has no encoding, and so no hash to sign, before both are set.
-/

namespace ShardLedger

/-- A parcel that has not been signed. -/
structure Parcel where
  nonce : Option Nat
  fee : Option Nat
  networkId : NetworkId
  action : Action
deriving DecidableEq

namespace Parcel

/-- Check the network, the nonce and the fee of a parcel. -/
def build (nonce fee networkId : Datum) (action : Action) : Except Fault Parcel := do
  let networkId ← NetworkId.ofDatum networkId
  let nonce ← nonce.naturalOrNull "nonce"
  return ⟨nonce, ← fee.naturalOrNull "fee", networkId, action⟩

/-- The nonce and the fee, which must be set by now. -/
def settled (parcel : Parcel) : Except Fault (Nat × Nat) :=
  match parcel.nonce, parcel.fee with
  | some nonce, some fee => .ok (nonce, fee)
  | none, _ => .error (.missingField .nonce)
  | some _, none => .error (.missingField .fee)

/-- The encoded form, with further items behind the parcel's own. -/
def itemWith (nonce fee : Nat) (parcel : Parcel) (further : List Rlp.Item) :
    Except Fault Rlp.Item := do
  let action ← parcel.action.item
  return .list ([.nat nonce, .nat fee, .text parcel.networkId.text, action] ++ further)

/-- The encoded form. -/
def item (parcel : Parcel) : Except Fault Rlp.Item := do
  let (nonce, fee) ← parcel.settled
  parcel.itemWith nonce fee []

/-- The encoding of a parcel. -/
def encode (parcel : Parcel) : Except Fault Bytes :=
  parcel.item.map Rlp.Item.encode

/-- The hash of a parcel, which is what gets signed. -/
def hash (parcel : Parcel) : Except Fault Digest :=
  parcel.encode.map contentHash

/-- A number as a numeral, `null` if there is none. -/
def numeralOrNull : Option Nat → Except Fault Datum
  | some n => Datum.numeral n
  | none => .ok .null

/-- The fields of a parcel's document. -/
def fields (parcel : Parcel) : Except Fault (List (String × Datum)) := do
  let nonce ← numeralOrNull parcel.nonce
  let fee ← numeralOrNull parcel.fee
  return [("nonce", nonce), ("fee", fee), ("networkId", .text parcel.networkId.text),
    ("action", ← parcel.action.toDatum)]

/-- A parcel as a document. -/
def toDatum (parcel : Parcel) : Except Fault Datum :=
  parcel.fields.map Datum.object

/-- Read a parcel. -/
def ofDatum (d : Datum) : Except Fault Parcel := do
  let nonce ← Datum.optionalUnsigned "nonce" (← d.optional "nonce")
  let fee ← Datum.optionalUnsigned "fee" (← d.optional "fee")
  let networkId ← d.field "networkId"
  let action ← Action.ofDatum (← d.field "action")
  return ⟨nonce, fee, ← NetworkId.ofDatum networkId, action⟩

end Parcel

/-- Who receives a payment: an account id, or an address. -/
inductive Receiver where
  | account (id : Bytes)
  | address (input : AddressInput)

/-- The payment of an amount to a receiver. -/
def Receiver.payment (receiver : Receiver) (amount : Datum) : Except Fault Action := do
  match receiver with
  | account id => Action.buildPayment id amount
  | address input => Action.buildPayment (← input.toPlatform).accountId.bytes amount

end ShardLedger
