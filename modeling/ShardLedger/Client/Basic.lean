import ShardLedger.Keys.Authorizer
import ShardLedger.Parcel.Signing
import ShardLedger.Settings.Basic

/-!
# Clients

A client puts parcels and transactions together under its settings: they are on its
network, a parcel without a fee gets the usual one, and its script limits apply when
entries are authorized.  Its keys are in a key ring.
-/

namespace ShardLedger

/-- Settings and a key ring. -/
structure Client where
  settings : Settings
  ring : KeyRing := {}

namespace Client

/-- The network of a client as a document. -/
def network (client : Client) : Datum :=
  .text client.settings.networkId.text

/-- A parcel that carries an action. -/
def parcel (client : Client) (nonce fee : Datum) (action : Action) : Except Fault Parcel :=
  let fee := if fee = .null then .int client.settings.parcelFee else fee
  Parcel.build nonce fee client.network action

/-- A mint whose first output goes to a recipient. -/
def mint (client : Client) (recipient : AddressInput) (metadata shardId worldId amount : Datum)
    (registrar : Option AddressInput) (nonce : Datum) : Except Fault Mint := do
  let address ← recipient.toTransfer
  let output ← MintOutput.ofCondition address.condition amount
  let registrar ← registrar.mapM AddressInput.toPlatform
  Mint.build client.network shardId worldId metadata output registrar nonce

/-- A transfer without any entries and outputs. -/
def transfer (client : Client) (nonce : Datum) : Except Fault Transfer :=
  Transfer.build [] [] [] client.network nonce

/-- A transfer that spends an asset on recipients. -/
def transferFrom (client : Client) (asset : Asset) (recipients : List Recipient) (nonce : Datum) :
    Except Fault Transfer :=
  asset.transferTo recipients nonce client.network

/-- Whether the entry at a position may spend its out point. -/
def authorize (client : Client) (transfer : Transfer) (list : EntryList) (index : Int) :
    Except Fault Script.Outcome :=
  transfer.authorize client.settings.script list index

/-- Authorize all entries of a transfer. -/
def verify (client : Client) (transfer : Transfer) : Except Fault Unit :=
  transfer.verify client.settings.script

end Client

end ShardLedger
