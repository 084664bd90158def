import ShardLedger.Proofs.Keys.Ring
import ShardLedger.Proofs.Script.Standard
import ShardLedger.Proofs.Signature.Attempt
import ShardLedger.Transaction.Authorization

/-!
# Entries under a standard lock script

An entry under a standard lock script is authorized exactly when its out point
records that script with a single parameter, and its unlock script proves the key
whose hash the parameter is, for the message of the transfer.
-/

namespace ShardLedger

open Script

/-- The out point records the entry's own lock script and one parameter, and the unlock script
proves the key that the parameter is the hash of. -/
def Entry.ProvesKey (entry : Entry) (limits : Limits) (message : Digest) (lockSteps : Nat) : Prop :=
  entry.prevOut.lockScriptHash = some (contentHash entry.lockScript) ∧
    ∃ parameter, entry.prevOut.parameters = some [parameter] ∧
      KeyProof limits message.bytes lockSteps entry.lockScript parameter entry.unlockScript

theorem Entry.lock_eq_ok_iff {entry : Entry} (hstandard : isStandard entry.lockScript = true)
    {lock : SpendCondition} :
    entry.lock = .ok lock ↔
      entry.prevOut.lockScriptHash = some (contentHash entry.lockScript) ∧
        ∃ parameter, entry.prevOut.parameters = some [parameter] ∧
          lock = ⟨contentHash entry.lockScript, [parameter]⟩ := by
  unfold Entry.lock
  split
  next hash parameters hhash hparameters =>
    rw [hhash, hparameters]
    split
    next hne =>
      constructor
      · intro herror
        cases herror
      · rintro ⟨hsome, -⟩
        exact absurd (Option.some.inj hsome).symm hne
    next heq =>
      rw [Decidable.not_not] at heq
      split
      next hcount =>
        constructor
        · intro herror
          cases herror
        · rintro ⟨-, parameter, hsome, -⟩
          cases hsome
          exact absurd rfl hcount.2
      next hcount =>
        have hlength : parameters.length = 1 :=
          Decidable.byContradiction fun hne => hcount ⟨hstandard, hne⟩
        obtain ⟨parameter, rfl⟩ := List.length_eq_one_iff.mp hlength
        constructor
        · intro hok
          cases hok
          exact ⟨congrArg some heq.symm, parameter, rfl, by rw [heq]⟩
        · rintro ⟨-, _, hsome, rfl⟩
          cases hsome
          rw [heq]
  next hnone =>
    constructor
    · intro herror
      cases herror
    · rintro ⟨hhash, parameter, hparameters, -⟩
      exact absurd hparameters (hnone _ _ hhash)

namespace Transfer

theorem authorizeEntry_standard_iff {limits : Limits} {list : EntryList} {message : Digest}
    {entry : Entry} {v : Verdict} {lockSteps : Nat} (hstandard : isStandard entry.lockScript = true)
    (hv : ∀ refusal, v ≠ .refused refusal)
    (hexecute : ∀ parameter,
      (∃ steps, execute ⟨message.bytes, list.isBurn, limits⟩ entry.unlockScript [parameter]
          entry.lockScript = .ok ⟨v, steps⟩) ↔
        KeyProof limits message.bytes lockSteps entry.lockScript parameter entry.unlockScript) :
    (∃ steps, authorizeEntry limits list message entry = .ok ⟨v, steps⟩) ↔
      entry.ProvesKey limits message lockSteps := by
  unfold authorizeEntry
  cases hlock : entry.lock with
  | error refusal =>
      constructor
      · rintro ⟨steps, hrefused⟩
        cases hrefused
        exact absurd rfl (hv refusal)
      · rintro ⟨hhash, parameter, hparameters, -⟩
        rw [(Entry.lock_eq_ok_iff hstandard).mpr ⟨hhash, parameter, hparameters, rfl⟩] at hlock
        cases hlock
  | ok lock =>
      obtain ⟨hhash, parameter, hparameters, rfl⟩ := (Entry.lock_eq_ok_iff hstandard).mp hlock
      constructor
      · intro hok
        exact ⟨hhash, parameter, hparameters, (hexecute parameter).mp hok⟩
      · rintro ⟨-, _, hsome, hproof⟩
        rw [hparameters] at hsome
        cases hsome
        exact (hexecute parameter).mpr hproof

theorem authorize_of_itemAt? {transfer : Transfer} (list : EntryList) {index : Int} {entry : Entry}
    (hentry : itemAt? (transfer.entries list) index = some entry) (limits : Limits) :
    transfer.authorize limits list index =
      authorizeEntry limits list transfer.hashWithoutScript entry := by
  rw [authorize, hentry]

/-- If execution authorizes nothing under the lock script of an entry, the entry is not
authorized. -/
theorem authorize_not_ok {transfer : Transfer} (list : EntryList) {index : Int} {entry : Entry}
    (hentry : itemAt? (transfer.entries list) index = some entry) {limits : Limits}
    (hexecute : ∀ parameters outcome,
      execute ⟨transfer.hashWithoutScript.bytes, list.isBurn, limits⟩ entry.unlockScript parameters
        entry.lockScript = .ok outcome → outcome.ok = false)
    {outcome : Outcome} (hauthorize : transfer.authorize limits list index = .ok outcome) :
    outcome.ok = false := by
  rw [authorize_of_itemAt? list hentry, authorizeEntry] at hauthorize
  split at hauthorize
  next refusal hlock =>
    cases hauthorize
    rfl
  next lock hlock => exact hexecute _ _ hauthorize

/-- Under the paying script, an input is unlocked exactly on a proof of its key, and a burn is never
authorized; under the burning script it is the other way round. -/
theorem authorize_standard_iff (transfer : Transfer) (limits : Limits) (index : Int)
    (entry : Entry) :
    (itemAt? transfer.inputs index = some entry → entry.lockScript = payToKey →
      ((∃ steps, transfer.authorize limits .inputs index = .ok ⟨.unlocked, steps⟩) ↔
        entry.ProvesKey limits transfer.hashWithoutScript 5)) ∧
    (itemAt? transfer.burns index = some entry → entry.lockScript = burnWithKey →
      ((∃ steps, transfer.authorize limits .burns index = .ok ⟨.burnt, steps⟩) ↔
        entry.ProvesKey limits transfer.hashWithoutScript 7)) ∧
    (itemAt? transfer.burns index = some entry → entry.lockScript = payToKey →
      ∀ outcome, transfer.authorize limits .burns index = .ok outcome → outcome.ok = false) ∧
    (itemAt? transfer.inputs index = some entry → entry.lockScript = burnWithKey →
      ∀ outcome, transfer.authorize limits .inputs index = .ok outcome → outcome.ok = false) ∧
    (∀ message unlock parameters outcome,
      execute ⟨message, true, limits⟩ unlock parameters payToKey = .ok outcome →
        outcome.ok = false) ∧
    ∀ message unlock parameters outcome,
      execute ⟨message, false, limits⟩ unlock parameters burnWithKey = .ok outcome →
        outcome.ok = false := by
  refine ⟨?_, ?_, ?_, ?_, ?_, ?_⟩
  · intro hentry hscript
    have hstandard : isStandard entry.lockScript = true := by simp [isStandard, hscript]
    rw [authorize_of_itemAt? .inputs hentry]
    refine authorizeEntry_standard_iff hstandard (by simp) fun parameter => ?_
    rw [hscript]
    exact execute_payToKey_iff rfl
  · intro hentry hscript
    have hstandard : isStandard entry.lockScript = true := by simp [isStandard, hscript]
    rw [authorize_of_itemAt? .burns hentry]
    refine authorizeEntry_standard_iff hstandard (by simp) fun parameter => ?_
    rw [hscript]
    exact execute_burnWithKey_iff rfl
  · intro hentry hscript outcome
    refine authorize_not_ok .burns hentry fun parameters outcome hexecute => ?_
    rw [hscript] at hexecute
    exact execute_payToKey_not_ok rfl hexecute
  · intro hentry hscript outcome
    refine authorize_not_ok .inputs hentry fun parameters outcome hexecute => ?_
    rw [hscript] at hexecute
    exact execute_burnWithKey_not_ok rfl hexecute
  · intro message unlock parameters outcome
    exact execute_payToKey_not_ok rfl
  · intro message unlock parameters outcome
    exact execute_burnWithKey_not_ok rfl

/-- An entry under the paying script that awaits the private key one, with some signature. -/
def signedEntry (signature : FixedBytes 65) : Entry where
  prevOut := ⟨.zero 32, 0, .zero 32, ⟨1, Nat.one_pos⟩, some payToKeyHash,
    some [SecretKey.one.publicKey.hash.bytes]⟩
  lockScript := payToKey
  unlockScript := unlockWith signature SecretKey.one.publicKey

/-- A transfer with this entry for its only input. -/
def signedInput (signature : FixedBytes 65) : Transfer where
  inputs := [signedEntry signature]
  networkId := .standard
  nonce := 0

/-- The nonce one makes a signature of the message, which does not depend on the unlock script. -/
theorem exists_recover_signedInput :
    ∃ signature, (Signature.ofFixedBytes signature).recover
      (signedInput signature).hashWithoutScript.bytes = .ok SecretKey.one.publicKey := by
  have hsuits : SecretKey.one.suitsAt (signedInput (.zero 65)).hashWithoutScript 1 0
      secp256k1.baseX secp256k1.baseY = true := by decide +kernel
  exact (SecretKey.suits_of_suitsAt hsuits).exists_recover

/-- With the signature, the input is unlocked, but not on a stack of three: the two pushed items,
the parameter and the copied key do not fit. -/
theorem authorize_standard_iff_signedInput :
    ∃ signature,
      itemAt? (signedInput signature).inputs 0 = some (signedEntry signature) ∧
      (signedEntry signature).lockScript = payToKey ∧
      (∃ steps, (signedInput signature).authorize .standard .inputs 0 = .ok ⟨.unlocked, steps⟩) ∧
      ¬∃ steps, (signedInput signature).authorize { maxStack := 3 } .inputs 0 =
        .ok ⟨.unlocked, steps⟩ := by
  obtain ⟨signature, hrecover⟩ := exists_recover_signedInput
  refine ⟨signature, rfl, rfl, ?_, ?_⟩
  · have hlock : payToKey.length ≤ 1024 := by decide
    apply ((authorize_standard_iff _ _ 0 (signedEntry signature)).1 rfl rfl).mpr
    exact ⟨rfl, _, rfl, keyProof_unlockWith hlock (by decide) rfl hrecover⟩
  · intro hunlocked
    obtain ⟨-, _, -, instructions, _, _, _, hproof⟩ :=
      ((authorize_standard_iff _ _ 0 (signedEntry signature)).1 rfl rfl).mp hunlocked
    have hlength := hproof.pushes.length_eq
    have hstack := hproof.stack
    rw [List.length_append, List.length_cons, List.length_singleton] at hlength
    change instructions.length + 2 ≤ 3 at hstack
    omega

end Transfer

end ShardLedger
