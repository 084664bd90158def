import ShardLedger.Script.Execution
import ShardLedger.Transaction.Transfer

/-!
# Authorization

An entry is authorized by executing its scripts against the message of its transfer.
Before that, its lock script must have the hash that the out point recorded, and a
standard lock script must come with exactly one parameter.  A transfer is authorized
when all of its inputs and then all of its burns are.
-/

namespace ShardLedger

/-- The lock of an entry's out point, if the entry may be executed at all. -/
def Entry.lock (entry : Entry) : Except Script.Refusal SpendCondition :=
  match entry.prevOut.lockScriptHash, entry.prevOut.parameters with
  | some hash, some parameters =>
    if contentHash entry.lockScript ≠ hash then .error .lockScriptMismatch
    else if Script.isStandard entry.lockScript ∧ parameters.length ≠ 1 then
      .error (.parameterCount parameters.length)
    else .ok ⟨hash, parameters⟩
  | _, _ => .error .noLockData

namespace EntryList

/-- Whether the entries of a list burn what they spend. -/
def isBurn : EntryList → Bool
  | inputs => false
  | burns => true

/-- The list of entries that burn or do not burn. -/
def ofBurn (burn : Bool) : EntryList :=
  if burn then burns else inputs

end EntryList

namespace Transfer

/-- Execute an entry of a list for a message. -/
def authorizeEntry (limits : Script.Limits) (list : EntryList) (message : Digest) (entry : Entry) :
    Except Fault Script.Outcome :=
  match entry.lock with
  | .error refusal => .ok (.refusedAtOnce refusal)
  | .ok lock =>
    Script.execute ⟨message.bytes, list.isBurn, limits⟩ entry.unlockScript lock.parameters
      entry.lockScript

/-- Whether the entry at a position may spend its out point. -/
def authorize (transfer : Transfer) (limits : Script.Limits) (list : EntryList) (index : Int) :
    Except Fault Script.Outcome :=
  match itemAt? (transfer.entries list) index with
  | none => .ok (.refusedAtOnce (.indexOutOfRange index))
  | some entry => authorizeEntry limits list transfer.hashWithoutScript entry

/-- Authorize the entries of a list one after the other, from a position on. -/
def verifyEntries (limits : Script.Limits) (list : EntryList) (message : Digest) (index : Nat) :
    List Entry → Except Fault Unit
  | [] => .ok ()
  | entry :: rest => do
    let outcome ← authorizeEntry limits list message entry
    match outcome.verdict with
    | .refused refusal => .error (.unauthorized (.entry list.isBurn index refusal))
    | _ => verifyEntries limits list message (index + 1) rest

/-- Authorize all entries; the first one that is refused is reported. -/
def verify (transfer : Transfer) (limits : Script.Limits) : Except Fault Unit := do
  let message := transfer.hashWithoutScript
  verifyEntries limits .inputs message 0 transfer.inputs
  verifyEntries limits .burns message 0 transfer.burns

end Transfer

end ShardLedger
