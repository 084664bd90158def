import ShardLedger.Transaction.Asset

/-!
# Transfers

A transfer spends and burns earlier outputs and puts assets under new conditions.  The
message that its entries sign is the hash of the transfer without any scripts, so that
scripts can be filled in one entry after the other.
-/

namespace ShardLedger

/-- A transfer of assets. -/
structure Transfer where
  burns : List Entry := []
  inputs : List Entry := []
  outputs : List Output := []
  networkId : NetworkId
  nonce : Nat
deriving DecidableEq

/-- The two lists of entries of a transfer. -/
inductive EntryList where
  | inputs
  | burns
deriving DecidableEq

/-- A destination of a transfer. -/
structure Recipient where
  address : AddressInput
  amount : Datum

/-- The item at a position that may be out of range. -/
def itemAt? {α : Type} (xs : List α) : Int → Option α
  | .ofNat i => xs[i]?
  | .negSucc _ => none

namespace Transfer

/-- The code in front of an encoded transfer. -/
def code : Nat := 4

/-- Check the network and the nonce of a transfer. -/
def build (burns inputs : List Entry) (outputs : List Output) (networkId nonce : Datum) :
    Except Fault Transfer := do
  let networkId ← NetworkId.ofDatum networkId
  return ⟨burns, inputs, outputs, networkId, ← nonce.natural "nonce"⟩

/-- One of the lists of entries. -/
def entries (transfer : Transfer) : EntryList → List Entry
  | .inputs => transfer.inputs
  | .burns => transfer.burns

/-- Replace one of the lists of entries. -/
def setEntries (transfer : Transfer) (list : EntryList) (entries : List Entry) : Transfer :=
  match list with
  | .inputs => { transfer with inputs := entries }
  | .burns => { transfer with burns := entries }

/-- Append an entry that spends or burns an earlier output. -/
def addEntry (transfer : Transfer) (list : EntryList) (prevOut : OutPoint) : Transfer :=
  transfer.setEntries list (transfer.entries list ++ [{ prevOut := prevOut }])

/-- Change the entry at a position, which a negative one counts from the end; nothing if there is
none. -/
def changeEntry? (transfer : Transfer) (list : EntryList) (index : Int)
    (change : Entry → Except Fault Entry) : Option (Except Fault Transfer) := do
  let entries := transfer.entries list
  let place := if index < 0 then index + entries.length else index
  let entry ← itemAt? entries place
  return (change entry).map fun entry => transfer.setEntries list (entries.set place.toNat entry)

/-- Append an output. -/
def addOutput (transfer : Transfer) (output : Output) : Transfer :=
  { transfer with outputs := transfer.outputs ++ [output] }

/-- The encoded form. -/
def item (transfer : Transfer) : Rlp.Item :=
  .list [.nat code, .text transfer.networkId.text, .list (transfer.burns.map Entry.item),
    .list (transfer.inputs.map Entry.item), .list (transfer.outputs.map Output.item),
    .nat transfer.nonce]

/-- The encoding of a transfer. -/
def encode (transfer : Transfer) : Bytes :=
  transfer.item.encode

/-- The hash of a transfer, scripts included. -/
def hash (transfer : Transfer) : Digest :=
  contentHash transfer.encode

/-- The same transfer with the scripts of all entries blank. -/
def withoutScript (transfer : Transfer) : Transfer :=
  { transfer with
    burns := transfer.burns.map Entry.withoutScript
    inputs := transfer.inputs.map Entry.withoutScript }

/-- The message that entries sign. -/
def hashWithoutScript (transfer : Transfer) : Digest :=
  transfer.withoutScript.hash

/-- The asset that an output becomes. -/
def assetOf (transfer : Transfer) (output : Output) (index : Nat) : Asset :=
  ⟨output.assetType, output.lockScriptHash, output.parameters, output.amount, transfer.hash, index⟩

/-- The asset that the output at a position becomes. -/
def transferredAsset (transfer : Transfer) (index : Int) : Except Fault Asset :=
  match index with
  | .ofNat i =>
    match transfer.outputs[i]? with
    | some output => .ok (transfer.assetOf output i)
    | none => refuse (.outputOutOfRange index)
  | .negSucc _ => refuse (.outputOutOfRange index)

/-- The assets that all outputs become. -/
def transferredAssets (transfer : Transfer) : List Asset :=
  let hash := transfer.hash
  transfer.outputs.zipIdx.map fun (output, index) =>
    ⟨output.assetType, output.lockScriptHash, output.parameters, output.amount, hash, index⟩

/-- A transfer as a document. -/
def toDatum (transfer : Transfer) : Datum :=
  .object [("type", .text "assetTransfer"), ("data", .object [
    ("networkId", .text transfer.networkId.text),
    ("burns", .list (transfer.burns.map Entry.toDatum)),
    ("inputs", .list (transfer.inputs.map Entry.toDatum)),
    ("outputs", .list (transfer.outputs.map Output.toDatum)),
    ("nonce", .int transfer.nonce)])]

/-- Read a transfer, with or without its envelope. -/
def ofDatum (d : Datum) : Except Fault Transfer := do
  let body ← d.fieldOr "data" d
  let burns ← (← (← body.fieldOr "burns" (.list [])).elements).mapM Entry.ofDatum
  let inputs ← (← (← body.fieldOr "inputs" (.list [])).elements).mapM Entry.ofDatum
  let outputs ← (← (← body.fieldOr "outputs" (.list [])).elements).mapM Output.ofDatum
  let networkId ← body.field "networkId"
  let nonce ← (← body.fieldOr "nonce" (.int 0)).unsigned "nonce"
  return ⟨burns, inputs, outputs, ← NetworkId.ofDatum networkId, nonce⟩

end Transfer

/-- The output that sends an amount of an asset to a recipient. -/
def Recipient.output (assetType : AssetType) (networkId : Datum) (recipient : Recipient) :
    Except Fault Output := do
  Output.ofCondition (← recipient.address.resolve networkId) assetType recipient.amount

/-- The transfer that spends an asset on recipients, one output each. -/
def Asset.transferTo (asset : Asset) (recipients : List Recipient) (nonce networkId : Datum) :
    Except Fault Transfer := do
  let outputs ← recipients.mapM (Recipient.output asset.assetType networkId)
  Transfer.build [] [asset.entry] outputs networkId nonce

end ShardLedger
