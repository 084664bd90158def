import ShardLedger.Transaction.OutPoint

/-!
# Entries

An entry of a transfer spends or burns one earlier output, as a whole.  Its lock and
unlock scripts start empty and are set once each, after the transfer without scripts
has been signed.
-/

namespace ShardLedger

/-- An input or a burn of a transfer. -/
structure Entry where
  prevOut : OutPoint
  lockScript : Bytes := []
  unlockScript : Bytes := []
deriving DecidableEq

namespace Entry

/-- Set the lock script. -/
def setLockScript (entry : Entry) (script : Bytes) : Except Fault Entry :=
  if entry.lockScript ≠ [] then refuse (.scriptAlreadySet .lock)
  else .ok { entry with lockScript := script }

/-- Set the unlock script. -/
def setUnlockScript (entry : Entry) (script : Bytes) : Except Fault Entry :=
  if entry.unlockScript ≠ [] then refuse (.scriptAlreadySet .unlock)
  else .ok { entry with unlockScript := script }

/-- Set one of the scripts. -/
def setScript (role : Script.Role) (script : Bytes) (entry : Entry) : Except Fault Entry :=
  match role with
  | .lock => entry.setLockScript script
  | .unlock => entry.setUnlockScript script

/-- One of the scripts. -/
def script (role : Script.Role) (entry : Entry) : Bytes :=
  match role with
  | .lock => entry.lockScript
  | .unlock => entry.unlockScript

/-- Replace one of the scripts, whether it is set or not. -/
def assignScript (role : Script.Role) (script : Bytes) (entry : Entry) : Entry :=
  match role with
  | .lock => { entry with lockScript := script }
  | .unlock => { entry with unlockScript := script }

/-- The same entry with both scripts blank. -/
def withoutScript (entry : Entry) : Entry :=
  { prevOut := entry.prevOut }

/-- The encoded form. -/
def item (entry : Entry) : Rlp.Item :=
  .list [entry.prevOut.item, .bytes entry.lockScript, .bytes entry.unlockScript]

/-- An entry as a document. -/
def toDatum (entry : Entry) : Datum :=
  .object [("prevOut", entry.prevOut.toDatum), ("lockScript", .byteList entry.lockScript),
    ("unlockScript", .byteList entry.unlockScript)]

/-- Read an entry. -/
def ofDatum (d : Datum) : Except Fault Entry := do
  let prevOut ← OutPoint.ofDatum (← d.field "prevOut")
  let lockScript ← (← d.fieldOr "lockScript" (.list [])).byteString "lockScript"
  let unlockScript ← (← d.fieldOr "unlockScript" (.list [])).byteString "unlockScript"
  return ⟨prevOut, lockScript, unlockScript⟩

end Entry

end ShardLedger
