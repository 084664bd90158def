import ShardLedger.Keys.Authorizer
import ShardLedger.Proofs.Keys.Ring
import ShardLedger.Proofs.Signature.Attempt
import ShardLedger.Proofs.Transaction.Authorization
import ShardLedger.Proofs.Transaction.Entries

/-!
# Signing an entry

Signing works on a transfer in place.  It either fails and leaves the transfer as it
was, whatever the key service answered, or it fills in both scripts of one entry that
had none.  With an honest key service the scripts then authorize the entry.
-/

namespace ShardLedger

/-! ## Unlock scripts -/

namespace Script

theorem unlockScript_eq_ok_iff {signature key unlock : Bytes} :
    unlockScript signature key = .ok unlock ↔
      ∃ (s : FixedBytes 65) (k : PublicKey),
        signature = s.bytes ∧ key = k.bytes ∧ unlock = unlockWith s k := by
  simp only [unlockScript, PublicKey.ofBytes, bind_eq_ok_iff, Datum.sized_eq_ok_iff, pure_eq_ok,
    Except.ok.injEq]
  constructor
  · rintro ⟨s, hs, k, hk, rfl⟩
    exact ⟨s, k, hs, hk, rfl⟩
  · rintro ⟨s, k, hs, hk, rfl⟩
    exact ⟨s, hs, k, hk, rfl⟩

end Script

namespace Authorizer

theorem length_lockScript_le (authorizer : Authorizer) : authorizer.lockScript.length ≤ 1024 := by
  cases authorizer with
  | payToKey => decide
  | burnWithKey => decide

theorem lockScript_ne_nil (authorizer : Authorizer) : authorizer.lockScript ≠ [] := by
  cases authorizer with
  | payToKey => decide
  | burnWithKey => decide

theorem lockScriptHash_eq (authorizer : Authorizer) :
    authorizer.lockScriptHash = contentHash authorizer.lockScript := by
  cases authorizer with
  | payToKey => rfl
  | burnWithKey => rfl

/-! ## What is checked before anything changes -/

/-- An entry without scripts that the authorizer may fill in for the key with a given hash. -/
structure Awaits (authorizer : Authorizer) (entry : Entry) (hash : Digest) : Prop where
  lock_blank : entry.lockScript = []
  unlock_blank : entry.unlockScript = []
  lock_hash : entry.prevOut.lockScriptHash = some authorizer.lockScriptHash
  parameters : entry.prevOut.parameters = some [hash.bytes]

theorem Awaits.keyHash_eq {authorizer : Authorizer} {entry : Entry} {hash : Digest}
    (hawaits : authorizer.Awaits entry hash) (index : Int) :
    authorizer.keyHash index entry = .ok hash.bytes := by
  have hblank : ¬(entry.lockScript ≠ [] ∨ entry.unlockScript ≠ []) := by
    rw [not_or, not_not, not_not]
    exact ⟨hawaits.lock_blank, hawaits.unlock_blank⟩
  rw [keyHash, if_neg hblank, if_neg (not_not.mpr hawaits.lock_hash), hawaits.parameters]
  simp only [Datum.sized_bytes, ok_bind, pure_eq_ok]

theorem exists_awaits_of_keyHash {authorizer : Authorizer} {index : Int} {entry : Entry} {b : Bytes}
    (hkeyHash : authorizer.keyHash index entry = .ok b) :
    ∃ hash : Digest, b = hash.bytes ∧ authorizer.Awaits entry hash := by
  unfold keyHash at hkeyHash
  split at hkeyHash
  next => cases hkeyHash
  next hblank =>
    rw [not_or, not_not, not_not] at hblank
    split at hkeyHash
    next => cases hkeyHash
    next hlock =>
      rw [not_not] at hlock
      split at hkeyHash
      next parameter hparameter =>
        obtain ⟨hash, hsized, hbytes⟩ := bind_eq_ok_iff.mp hkeyHash
        rw [Datum.sized_eq_ok_iff] at hsized
        subst hsized
        exact ⟨hash, (Except.ok.inj hbytes).symm, hblank.1, hblank.2, hlock, hparameter⟩
      next => cases hkeyHash
      next => cases hkeyHash

/-- Everything that signing an entry needs before it changes the transfer. -/
structure Ready (authorizer : Authorizer) (service : KeyService) (transfer : Transfer)
    (list : EntryList) (i : Nat) (entry : Entry) (hash : Digest) (unlock : Bytes) : Prop where
  entry_at : (transfer.entries list)[i]? = some entry
  awaits : authorizer.Awaits entry hash
  unlock : unlockScript service transfer.hashWithoutScript hash.bytes = .ok unlock

/-- The entry with both scripts filled in. -/
def filled (authorizer : Authorizer) (entry : Entry) (unlock : Bytes) : Entry :=
  { entry with lockScript := authorizer.lockScript, unlockScript := unlock }

end Authorizer

theorem Transfer.exists_of_entryAt {transfer : Transfer} {list : EntryList} {index : Int}
    {entry : Entry} (hentry : transfer.entryAt list index = .ok entry) :
    ∃ i : Nat, index = i ∧ (transfer.entries list)[i]? = some entry := by
  apply itemAt?_eq_some_iff.mp
  unfold entryAt at hentry
  simp only at hentry
  split at hentry
  next entry' hitem =>
    cases hentry
    exact hitem
  next => cases hentry

/-! ## Runs of signing -/

namespace Signing

theorem run_lift {α : Type} (x : Except Fault α) (transfer : Transfer) :
    (liftM x : Signing α).run transfer =
      match x with
      | .ok a => .ok a transfer
      | .error fault => .error fault transfer := by
  cases x with
  | ok a => rfl
  | error fault => rfl

theorem run_setScript {transfer : Transfer} {list : EntryList} {i : Nat} {entry : Entry}
    (hentry : (transfer.entries list)[i]? = some entry) {role : Script.Role}
    (hblank : entry.script role = []) (script : Bytes) :
    (setScript list i role script).run transfer =
      .ok () (transfer.setEntry list i (entry.assignScript role script)) := by
  rw [setScript, EStateM.run_bind, EStateM.run_get]
  simp only [Transfer.changeEntry?_eq_setEntry hentry, Entry.setScript_of_blank hblank]
  rfl

end Signing

namespace Authorizer

variable {authorizer : Authorizer} {service : KeyService} {transfer : Transfer} {list : EntryList}
  {i : Nat} {entry : Entry} {hash : Digest} {unlock : Bytes}

theorem Ready.run_fillAt
    (hready : authorizer.Ready service transfer list i entry hash unlock) :
    (authorizer.fillAt service list i).run transfer =
      .ok () (transfer.setEntry list i (authorizer.filled entry unlock)) := by
  have hentryAt : transfer.entryAt list i = .ok entry := by
    have hitem : itemAt? (transfer.entries list) (i : Int) = some entry := hready.entry_at
    rw [Transfer.entryAt, hitem]
  have hlockBlank : entry.script .lock = [] := hready.awaits.lock_blank
  have hunlockBlank : (entry.assignScript .lock authorizer.lockScript).script .unlock = [] :=
    hready.awaits.unlock_blank
  have hlock := Signing.run_setScript hready.entry_at hlockBlank authorizer.lockScript
  have hunlock := Signing.run_setScript
    (Transfer.getElem?_setEntry hready.entry_at (entry.assignScript .lock authorizer.lockScript))
    hunlockBlank unlock
  rw [Transfer.setEntry_setEntry] at hunlock
  simp only [fillAt, EStateM.run_bind, EStateM.run_get, Signing.run_lift, hentryAt,
    hready.awaits.keyHash_eq, hready.unlock, hlock, hunlock]
  rfl

/-- Filling in fails before it changes anything, or everything is ready for it and it succeeds. -/
theorem run_fillAt_cases (authorizer : Authorizer) (service : KeyService) (transfer : Transfer)
    (list : EntryList) (index : Int) :
    (∃ fault, (authorizer.fillAt service list index).run transfer = .error fault transfer) ∨
      ∃ (i : Nat) (entry : Entry) (hash : Digest) (unlock : Bytes), index = i ∧
        authorizer.Ready service transfer list i entry hash unlock ∧
        (authorizer.fillAt service list index).run transfer =
          .ok () (transfer.setEntry list i (authorizer.filled entry unlock)) := by
  -- Filling in has three steps that can fail, and all of them come before the two that change the
  -- transfer; once they have succeeded, both scripts are known to be blank and can be set.
  cases hentry : transfer.entryAt list index with
  | error fault =>
      refine Or.inl ⟨fault, ?_⟩
      simp only [fillAt, EStateM.run_bind, EStateM.run_get, Signing.run_lift, hentry]
  | ok entry =>
      cases hkeyHash : authorizer.keyHash index entry with
      | error fault =>
          refine Or.inl ⟨fault, ?_⟩
          simp only [fillAt, EStateM.run_bind, EStateM.run_get, Signing.run_lift, hentry, hkeyHash]
      | ok keyHash =>
          cases hunlock : unlockScript service transfer.hashWithoutScript keyHash with
          | error fault =>
              refine Or.inl ⟨fault, ?_⟩
              simp only [fillAt, EStateM.run_bind, EStateM.run_get, Signing.run_lift, hentry,
                hkeyHash, hunlock]
          | ok unlock =>
              obtain ⟨hash, rfl, hawaits⟩ := exists_awaits_of_keyHash hkeyHash
              obtain ⟨i, rfl, hitem⟩ := Transfer.exists_of_entryAt hentry
              have hready : authorizer.Ready service transfer list i entry hash unlock :=
                ⟨hitem, hawaits, hunlock⟩
              exact Or.inr ⟨i, entry, hash, unlock, rfl, hready, hready.run_fillAt⟩

end Authorizer

/-! ## What the scripts are good for -/

namespace EntryList

/-- The authorizer for the entries of a list. -/
def authorizer : EntryList → Authorizer
  | inputs => .payToKey
  | burns => .burnWithKey

/-- The verdict that the entries of a list need. -/
def verdict : EntryList → Script.Verdict
  | inputs => .unlocked
  | burns => .burnt

/-- The number of instructions in the lock script for the entries of a list. -/
def lockSteps : EntryList → Nat
  | inputs => 5
  | burns => 7

end EntryList

theorem Transfer.authorizeEntry_eq_verdict_iff {list : EntryList} {limits : Script.Limits}
    {message : Digest} {entry : Entry} (hlock : entry.lockScript = list.authorizer.lockScript) :
    (∃ steps, authorizeEntry limits list message entry = .ok ⟨list.verdict, steps⟩) ↔
      entry.ProvesKey limits message list.lockSteps := by
  cases list with
  | inputs =>
      have hscript : entry.lockScript = Script.payToKey := hlock
      have hstandard : Script.isStandard entry.lockScript = true := by
        simp [Script.isStandard, hscript]
      refine authorizeEntry_standard_iff hstandard (by simp [EntryList.verdict]) fun parameter => ?_
      rw [hscript]
      exact Script.execute_payToKey_iff rfl
  | burns =>
      have hscript : entry.lockScript = Script.burnWithKey := hlock
      have hstandard : Script.isStandard entry.lockScript = true := by
        simp [Script.isStandard, hscript]
      refine authorizeEntry_standard_iff hstandard (by simp [EntryList.verdict]) fun parameter => ?_
      rw [hscript]
      exact Script.execute_burnWithKey_iff rfl

/-- What an honest service gave for the hash of a key unlocks with a signature of that key. -/
theorem KeyService.Honest.exists_unlockWith {service : KeyService} (hservice : service.Honest)
    {message : Digest} {keyHash unlock : Bytes}
    (hunlock : Authorizer.unlockScript service message keyHash = .ok unlock) :
    ∃ (signature : FixedBytes 65) (key : PublicKey),
      unlock = Script.unlockWith signature key ∧ key.hash.bytes = keyHash ∧
        (Signature.ofFixedBytes signature).recover message.bytes = .ok key := by
  obtain ⟨answer, hanswer, hsigned⟩ := bind_eq_ok_iff.mp hunlock
  cases answer with
  | none => cases hsigned
  | some answer =>
      obtain ⟨signed, hsign, hscript⟩ := bind_eq_ok_iff.mp hsigned
      obtain ⟨key, rfl, hhash⟩ := hservice.publicKeyOf _ _ hanswer
      obtain ⟨signature, rfl, hrecover⟩ := hservice.sign _ _ _ hsign
      obtain ⟨signature', key', hsignature, hkey, rfl⟩ :=
        Script.unlockScript_eq_ok_iff.mp hscript
      rw [FixedBytes.bytes_inj] at hsignature hkey
      subst hsignature hkey
      exact ⟨signature, key, rfl, hhash, hrecover⟩

/-- A key ring that holds a private key makes an unlock script for its hash whenever the key
signs. -/
theorem KeyRing.Holds.exists_unlockScript_iff {ring : KeyRing} {secret : SecretKey}
    (hholds : ring.Holds secret) (message : Digest) :
    (∃ unlock, Authorizer.unlockScript ring.service message secret.publicKey.hash.bytes =
      .ok unlock) ↔ ∃ signature, secret.sign message = .ok signature := by
  have hanswer : ring.service.publicKeyOf secret.publicKey.hash.bytes =
      .ok (some secret.publicKey.bytes) := by
    simp only [KeyRing.service, hholds.byHash, Option.map_some]
  constructor
  · rintro ⟨unlock, hunlock⟩
    rw [Authorizer.unlockScript, hanswer, ok_bind] at hunlock
    obtain ⟨answer, hsign, -⟩ := bind_eq_ok_iff.mp hunlock
    obtain ⟨bytes, hsigned, -⟩ := map_eq_ok_iff.mp hsign
    rw [KeyRing.sign_eq_bind hholds.byKey] at hsigned
    obtain ⟨signature, hsignature, -⟩ := bind_eq_ok_iff.mp hsigned
    exact ⟨signature, hsignature⟩
  · rintro ⟨signature, hsignature⟩
    obtain ⟨hfits, -⟩ := SecretKey.recover_of_sign hsignature
    obtain ⟨bytes, hbytes, -⟩ := hfits.exists_toBytes
    refine ⟨Script.unlockWith bytes secret.publicKey, ?_⟩
    rw [Authorizer.unlockScript, hanswer, ok_bind]
    refine bind_eq_ok_iff.mpr ⟨bytes.bytes, ?_, ?_⟩
    · exact KeyRing.sign_of_secret? hholds.byKey hsignature hbytes
    · exact Script.unlockScript_eq_ok_iff.mpr ⟨bytes, secret.publicKey, rfl, rfl, rfl⟩

namespace Authorizer

variable {service : KeyService} {transfer : Transfer} {list : EntryList} {i : Nat} {entry : Entry}
  {hash : Digest} {unlock : Bytes}

theorem Ready.hashWithoutScript_eq {authorizer : Authorizer}
    (hready : authorizer.Ready service transfer list i entry hash unlock) :
    (transfer.setEntry list i (authorizer.filled entry unlock)).hashWithoutScript =
      transfer.hashWithoutScript :=
  Transfer.hashWithoutScript_setEntry hready.entry_at rfl

theorem Ready.provesKey (hservice : service.Honest)
    (hready : list.authorizer.Ready service transfer list i entry hash unlock) :
    (list.authorizer.filled entry unlock).ProvesKey .standard transfer.hashWithoutScript
      list.lockSteps := by
  obtain ⟨signature, key, rfl, hhash, hrecover⟩ := hservice.exists_unlockWith hready.unlock
  have hlock := hready.awaits.lock_hash
  rw [lockScriptHash_eq] at hlock
  have hsteps : list.lockSteps ≤ 998 := by
    cases list with
    | inputs => decide
    | burns => decide
  exact ⟨hlock, hash.bytes, hready.awaits.parameters,
    Script.keyProof_unlockWith (length_lockScript_le list.authorizer) hsteps hhash hrecover⟩

/-- Scripts from an honest key service authorize the entry that they were made for. -/
theorem Ready.authorize (hservice : service.Honest)
    (hready : list.authorizer.Ready service transfer list i entry hash unlock) :
    ∃ steps, (transfer.setEntry list i (list.authorizer.filled entry unlock)).authorize
      .standard list i = .ok ⟨list.verdict, steps⟩ := by
  have hfilled := Transfer.getElem?_setEntry hready.entry_at (list.authorizer.filled entry unlock)
  have hitem : itemAt? ((transfer.setEntry list i (list.authorizer.filled entry unlock)).entries
      list) (i : Int) = some (list.authorizer.filled entry unlock) := hfilled
  rw [Transfer.authorize_of_itemAt? list hitem, hready.hashWithoutScript_eq]
  exact (Transfer.authorizeEntry_eq_verdict_iff rfl).mpr (hready.provesKey hservice)

end Authorizer

/-! ## Requests to sign -/

/-- A request to sign an input or a burn of a transfer. -/
inductive SigningCall where
  | input (authorizer : Authorizer) (index : Int)
  | burn (index : Int)
deriving DecidableEq

namespace SigningCall

/-- The list with the entry that is to be signed. -/
def list : SigningCall → EntryList
  | input _ _ => .inputs
  | burn _ => .burns

/-- The position of the entry. -/
def index : SigningCall → Int
  | input _ index => index
  | burn index => index

/-- Sign the entry with the keys of a service. -/
def sign (service : KeyService) : SigningCall → Signing Unit
  | input authorizer index => authorizer.signInput service index
  | burn index => Authorizer.signBurn service index

/-- A request fails and changes nothing, or everything is ready to fill in its entry. -/
theorem run_sign_cases (service : KeyService) (call : SigningCall) (transfer : Transfer) :
    (∃ fault, (call.sign service).run transfer = .error fault transfer) ∨
      ∃ (i : Nat) (entry : Entry) (hash : Digest) (unlock : Bytes), call.index = i ∧
        call.list.authorizer.Ready service transfer call.list i entry hash unlock ∧
        (call.sign service).run transfer =
          .ok () (transfer.setEntry call.list i (call.list.authorizer.filled entry unlock)) := by
  cases call with
  | input authorizer index =>
      cases authorizer with
      | payToKey =>
          exact Authorizer.run_fillAt_cases .payToKey service transfer .inputs index
      | burnWithKey => exact Or.inl ⟨_, rfl⟩
  | burn index => exact Authorizer.run_fillAt_cases .burnWithKey service transfer .burns index

/-- A request that fails leaves the transfer as it was, whatever the key service answered.  One that
succeeds fills in the blank scripts of its entry and changes nothing else, neither the rest of the
transfer nor the signed message; and if the service is a key ring, the entry is authorized. -/
theorem sign_all_or_nothing (service : KeyService) (call : SigningCall) (transfer : Transfer) :
    (∀ fault after, (call.sign service).run transfer = .error fault after → after = transfer) ∧
    ∀ after, (call.sign service).run transfer = .ok () after →
      (∃ (i : Nat) (entry : Entry) (unlock : Bytes),
        call.index = i ∧ (transfer.entries call.list)[i]? = some entry ∧
        entry.lockScript = [] ∧ entry.unlockScript = [] ∧
        after = transfer.setEntries call.list ((transfer.entries call.list).set i
          { entry with lockScript := call.list.authorizer.lockScript, unlockScript := unlock })) ∧
      after.hashWithoutScript = transfer.hashWithoutScript ∧
      ∀ ring : KeyRing, ring.Reachable → service = ring.service →
        ∃ steps, after.authorize .standard call.list call.index =
          .ok ⟨call.list.verdict, steps⟩ := by
  rcases run_sign_cases service call transfer with
    ⟨fault, hfault⟩ | ⟨i, entry, hash, unlock, hindex, hready, hrun⟩
  · constructor
    · intro fault' after hrun
      rw [hfault] at hrun
      cases hrun
      rfl
    · intro after hrun
      rw [hfault] at hrun
      cases hrun
  · constructor
    · intro fault after hfault
      rw [hrun] at hfault
      cases hfault
    · intro after hafter
      rw [hrun] at hafter
      cases hafter
      refine ⟨⟨i, entry, unlock, hindex, hready.entry_at, hready.awaits.lock_blank,
        hready.awaits.unlock_blank, rfl⟩, hready.hashWithoutScript_eq, ?_⟩
      rintro ring hring rfl
      rw [hindex]
      exact hready.authorize hring.honest

/-- A key service that answers everything with blanks of the right lengths. -/
def blankService : KeyService where
  publicKeyOf := fun _ => .ok (some (FixedBytes.zero 64).bytes)
  sign := fun _ _ => .ok (FixedBytes.zero 65).bytes

/-- A key ring with the private key one. -/
def oneKeyRing : KeyRing :=
  ({} : KeyRing).add .one

/-- A transfer of one input and one burn that await the private key one. -/
def twoUnsigned : Transfer where
  inputs := [{ prevOut := ⟨.zero 32, 0, .zero 32, ⟨1, Nat.one_pos⟩, some Script.payToKeyHash,
    some [SecretKey.one.publicKey.hash.bytes]⟩ }]
  burns := [{ prevOut := ⟨.zero 32, 1, .zero 32, ⟨1, Nat.one_pos⟩, some Script.burnWithKeyHash,
    some [SecretKey.one.publicKey.hash.bytes]⟩ }]
  networkId := .standard
  nonce := 0

theorem hashWithoutScript_twoUnsigned :
    twoUnsigned.hashWithoutScript = BigEndian.fixedBytes 32
      0x0765a39ffd2c97ea28e46c765a9e3dd8d7e4e6fd1abe0be44c0aab32fe48f577 := by
  decide +kernel

/-- The key of the ring signs the message, at its first nonce. -/
theorem exists_unlockScript_twoUnsigned :
    ∃ unlock, Authorizer.unlockScript oneKeyRing.service twoUnsigned.hashWithoutScript
      SecretKey.one.publicKey.hash.bytes = .ok unlock := by
  have hholds : oneKeyRing.Holds .one := KeyRing.holds_add {} .one
  rw [hholds.exists_unlockScript_iff, hashWithoutScript_twoUnsigned]
  exact SecretKey.exists_sign_of_suitsAt
    0x02d58f98ec027e05f8b177b624ba76bd614b6f9bc1106dab8db4c347b6e3c93d 249
    0x255408dd56b74ff03deea52e3756b091492772e3d4ddf549f9c9a55d4de624c6
    0xfe479b6d311be8f88e5dce14d7534a37d4a4b0371b4586793a99c553dbea38f8
    (by decide +kernel) (by decide +kernel)

theorem sign_all_or_nothing_twoUnsigned :
    (∃ after, ((input .payToKey 0).sign blankService).run twoUnsigned = .ok () after ∧
      after.inputs.map Entry.lockScript = [Script.payToKey] ∧
      after.hashWithoutScript = twoUnsigned.hashWithoutScript) ∧
    oneKeyRing.Reachable ∧
    ∃ after, ((input .payToKey 0).sign oneKeyRing.service).run twoUnsigned = .ok () after ∧
      ∃ steps, after.authorize .standard .inputs 0 = .ok ⟨.unlocked, steps⟩ := by
  have hring : oneKeyRing.Reachable := KeyRing.Reachable.empty.add _
  refine ⟨?_, hring, ?_⟩
  · have hready : Authorizer.payToKey.Ready blankService twoUnsigned .inputs 0 _
        SecretKey.one.publicKey.hash _ := ⟨rfl, ⟨rfl, rfl, rfl, rfl⟩, rfl⟩
    obtain ⟨-, hcall⟩ := sign_all_or_nothing blankService (input .payToKey 0) twoUnsigned
    obtain ⟨-, hmessage, -⟩ := hcall _ hready.run_fillAt
    exact ⟨_, hready.run_fillAt, rfl, hmessage⟩
  · obtain ⟨unlock, hunlock⟩ := exists_unlockScript_twoUnsigned
    have hready : Authorizer.payToKey.Ready oneKeyRing.service twoUnsigned .inputs 0 _
        SecretKey.one.publicKey.hash unlock := ⟨rfl, ⟨rfl, rfl, rfl, rfl⟩, hunlock⟩
    obtain ⟨-, hcall⟩ := sign_all_or_nothing oneKeyRing.service (input .payToKey 0) twoUnsigned
    obtain ⟨-, -, hauthorize⟩ := hcall _ hready.run_fillAt
    exact ⟨_, hready.run_fillAt, hauthorize oneKeyRing hring rfl⟩

end SigningCall

end ShardLedger
