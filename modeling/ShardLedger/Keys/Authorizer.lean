import ShardLedger.Keys.Ring
import ShardLedger.Transaction.Authorization

/-!
# Authorizers

An authorizer fills in the scripts of entries that a public key locks, with the help of
a key service.  One kind pays to the hash of a key, the other kind only burns.  Scripts
are filled in in place, one after the other, but only after everything has been checked
and signed.
-/

namespace ShardLedger

/-- The entry at a position that signing was asked for. -/
def Transfer.entryAt (transfer : Transfer) (list : EntryList) (index : Int) : Except Fault Entry :=
  let entries := transfer.entries list
  match itemAt? entries index with
  | some entry => .ok entry
  | none => refuse (.entryOutOfRange index entries.length)

/-- What signs in place: a failure keeps the changes that were made to the transfer before it. -/
abbrev Signing := EStateM Fault Transfer

namespace Signing

/-- Go on with a result that was found without touching the transfer. -/
def ofExcept {α : Type} : Except Fault α → Signing α
  | .ok a => pure a
  | .error fault => throw fault

instance : MonadLift (Except Fault) Signing where
  monadLift := ofExcept

/-- Set a script of the entry at a position. -/
def setScript (list : EntryList) (index : Int) (role : Script.Role) (script : Bytes) :
    Signing Unit := do
  let transfer ← get
  match transfer.changeEntry? list index (Entry.setScript role script) with
  | some changed => set (← ofExcept changed)
  | none => throw (.malformed (.entryOutOfRange index (transfer.entries list).length))

end Signing

/-- The two kinds of locks by the hash of a public key. -/
inductive Authorizer where
  | payToKey
  | burnWithKey
deriving DecidableEq

namespace Authorizer

/-- The lock script that entries get. -/
def lockScript : Authorizer → Bytes
  | payToKey => Script.payToKey
  | burnWithKey => Script.burnWithKey

/-- The hash of the lock script. -/
def lockScriptHash : Authorizer → Digest
  | payToKey => Script.payToKeyHash
  | burnWithKey => Script.burnWithKeyHash

/-- The type of the addresses that lock to a key in this way. -/
def addressType : Authorizer → AddressType
  | payToKey => .payToKey
  | burnWithKey => .burnWithKey

/-- The address that locks to a public key. -/
def addressOf (authorizer : Authorizer) (key : PublicKey) (network : Datum) :
    Except Fault TransferAddress :=
  TransferAddress.ofPayload (.int authorizer.addressType.code) key.hash.bytes network

/-- The hash of the public key that locks an entry, if this authorizer may fill it in.  The
position of the entry only serves messages. -/
def keyHash (authorizer : Authorizer) (index : Int) (entry : Entry) : Except Fault Bytes :=
  if entry.lockScript ≠ [] ∨ entry.unlockScript ≠ [] then refuse (.alreadySigned index)
  else if entry.prevOut.lockScriptHash ≠ some authorizer.lockScriptHash then
    .error (.unauthorized (.otherLock index))
  else
    match entry.prevOut.parameters with
    | some [hash] => do
      return (← Datum.sized "public key hash" 32 hash).bytes
    | some parameters => refuse (.oneParameter index parameters.length)
    | none => refuse (.oneParameter index 0)

/-- The script that unlocks an output locked to a key hash, for a message. -/
def unlockScript (service : KeyService) (message : Digest) (keyHash : Bytes) :
    Except Fault Bytes := do
  match ← service.publicKeyOf keyHash with
  | none => .error (.keyNotFound (.withHash keyHash))
  | some key =>
    Script.unlockScript (← service.sign key message.bytes) key

/-- Fill in the scripts of the entry at a position.  Both scripts are set only after the service has
signed. -/
def fillAt (authorizer : Authorizer) (service : KeyService) (list : EntryList) (index : Int) :
    Signing Unit := do
  let transfer ← get
  let entry ← transfer.entryAt list index
  let keyHash ← authorizer.keyHash index entry
  let unlock ← unlockScript service transfer.hashWithoutScript keyHash
  Signing.setScript list index .lock authorizer.lockScript
  Signing.setScript list index .unlock unlock

/-- Sign an input; what only burns cannot be spent. -/
def signInput (authorizer : Authorizer) (service : KeyService) (index : Int) : Signing Unit :=
  match authorizer with
  | payToKey => payToKey.fillAt service .inputs index
  | burnWithKey => throw (.unauthorized .burnOnly)

/-- Sign a burn, for which there is only one kind of lock. -/
def signBurn (service : KeyService) (index : Int) : Signing Unit :=
  burnWithKey.fillAt service .burns index

end Authorizer

end ShardLedger
