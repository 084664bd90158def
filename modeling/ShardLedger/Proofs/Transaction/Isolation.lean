import ShardLedger.Proofs.Transaction.Authorization
import ShardLedger.Proofs.Transaction.Entries

/-!
# Entries on their own

Whether an entry may spend its out point is decided by the entry itself and by what its
transfer signs.  The scripts of the other entries and the locks of their out points are
not signed, so they have no say in it, and several parties can fill in the scripts of
one transfer without knowing each other's.
-/

namespace ShardLedger.Transfer

variable {transfer other : Transfer} {list : EntryList} {index : Int}

theorem Agree.hashWithoutScript_eq (hagree : transfer.Agree other) :
    transfer.hashWithoutScript = other.hashWithoutScript := by
  have hitem := withoutScript_item_eq_iff.mpr hagree
  rw [hashWithoutScript, hash, encode, hitem, hashWithoutScript, hash, encode]

/-- Where two transfers that sign the same have the same entry, they authorize it alike, however
the other entries differ in their scripts and in the locks of their out points. -/
theorem authorize_eq_of_agree (hagree : transfer.Agree other) (limits : Script.Limits)
    (hentry : itemAt? (transfer.entries list) index = itemAt? (other.entries list) index) :
    transfer.authorize limits list index = other.authorize limits list index := by
  rw [authorize, authorize, hentry, hagree.hashWithoutScript_eq]

/-- An entry under the paying script whose unlock script pushes a blank signature and key. -/
def blankEntry : Entry where
  prevOut := ⟨.zero 32, 0, .zero 32, ⟨1, Nat.one_pos⟩, some Script.payToKeyHash,
    some [(PublicKey.hash (.zero 64)).bytes]⟩
  lockScript := Script.payToKey
  unlockScript := Script.unlockWith (.zero 65) (.zero 64)

/-- A transfer with this entry for its first input and another input behind it. -/
def blankBeside (neighbour : Entry) : Transfer where
  inputs := [blankEntry, neighbour]
  networkId := .standard
  nonce := 0

/-- A neighbour with a lock and scripts of its own. -/
def neighbour (lockScriptHash : Option Digest) (lockScript unlockScript : Bytes) : Entry where
  prevOut := ⟨.zero 32, 1, .zero 32, ⟨1, Nat.one_pos⟩, lockScriptHash, none⟩
  lockScript := lockScript
  unlockScript := unlockScript

theorem authorize_eq_of_agree_blankBeside :
    let before := blankBeside (neighbour (some Script.burnWithKeyHash) [] [])
    let after := blankBeside (neighbour none Script.payToKey [1])
    before.Agree after ∧ before ≠ after ∧
      before.authorize .standard .inputs 0 = after.authorize .standard .inputs 0 := by
  intro before after
  have hagree : before.Agree after := ⟨rfl, rfl, rfl, rfl, rfl⟩
  have hne : before ≠ after := by simp [before, after, blankBeside, neighbour]
  exact ⟨hagree, hne, authorize_eq_of_agree hagree .standard rfl⟩

end ShardLedger.Transfer
