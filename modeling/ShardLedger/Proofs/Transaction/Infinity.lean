import ShardLedger.Proofs.Script.Infinity
import ShardLedger.Proofs.Transaction.Authorization

/-!
# Authorizations that break down

Executing scripts, authorizing an entry and verifying a transfer come to an outcome for
every input, unless a signature check meets the point at infinity.  A verification that
fails otherwise names the entry that is refused.
-/

namespace ShardLedger

open Script

/-- The entry is executed, and its lock script comes to a signature check that meets infinity. -/
def Entry.MeetsInfinity (limits : Limits) (list : EntryList) (message : Digest) (entry : Entry) :
    Prop :=
  ∃ lock, entry.lock = .ok lock ∧
    Script.MeetsInfinity ⟨message.bytes, list.isBurn, limits⟩ entry.unlockScript lock.parameters
      entry.lockScript

namespace Transfer

theorem authorizeEntry_eq_error_iff {limits : Limits} {list : EntryList} {message : Digest}
    {entry : Entry} {fault : Fault} :
    authorizeEntry limits list message entry = .error fault ↔
      fault = .atInfinity ∧ entry.MeetsInfinity limits list message := by
  unfold authorizeEntry Entry.MeetsInfinity
  cases hlock : entry.lock with
  | error refusal => simp
  | ok lock =>
      simp only [Except.ok.injEq, exists_eq_left']
      exact execute_eq_error_iff

theorem authorize_eq_error_iff {transfer : Transfer} {limits : Limits} {list : EntryList}
    {index : Int} {fault : Fault} :
    transfer.authorize limits list index = .error fault ↔
      fault = .atInfinity ∧ ∃ entry, itemAt? (transfer.entries list) index = some entry ∧
        entry.MeetsInfinity limits list transfer.hashWithoutScript := by
  unfold authorize
  cases hentry : itemAt? (transfer.entries list) index with
  | none => simp
  | some entry =>
      simp only [Option.some.injEq, exists_eq_left']
      exact authorizeEntry_eq_error_iff

/-- How the verification of entries may end: with no fault, with the refusal of an entry, or at
infinity. -/
theorem verifyEntries_cases (limits : Limits) (list : EntryList) (message : Digest) (index : Nat)
    (entries : List Entry) :
    verifyEntries limits list message index entries = .ok () ∨
      (∃ i refusal, verifyEntries limits list message index entries =
        .error (.unauthorized (.entry list.isBurn i refusal))) ∨
      verifyEntries limits list message index entries = .error .atInfinity ∧
        ∃ entry ∈ entries, entry.MeetsInfinity limits list message := by
  induction entries generalizing index with
  | nil => exact Or.inl rfl
  | cons entry rest ih =>
      rw [verifyEntries]
      cases hauthorize : authorizeEntry limits list message entry with
      | error fault =>
          obtain ⟨rfl, hmeets⟩ := authorizeEntry_eq_error_iff.mp hauthorize
          exact Or.inr (Or.inr ⟨rfl, entry, List.mem_cons_self, hmeets⟩)
      | ok outcome =>
          rw [ok_bind]
          split
          next refusal _ => exact Or.inr (Or.inl ⟨index, refusal, rfl⟩)
          next =>
            rcases ih (index + 1) with hok | hrefused | ⟨hfault, entry', hmem, hmeets⟩
            · exact Or.inl hok
            · exact Or.inr (Or.inl hrefused)
            · exact Or.inr (Or.inr ⟨hfault, entry', List.mem_cons_of_mem _ hmem, hmeets⟩)

theorem verify_cases (transfer : Transfer) (limits : Limits) :
    transfer.verify limits = .ok () ∨
      (∃ list i refusal, transfer.verify limits =
        .error (.unauthorized (.entry (EntryList.isBurn list) i refusal))) ∨
      transfer.verify limits = .error .atInfinity ∧
        ∃ list, ∃ entry ∈ transfer.entries list,
          entry.MeetsInfinity limits list transfer.hashWithoutScript := by
  rw [verify]
  rcases verifyEntries_cases limits .inputs transfer.hashWithoutScript 0 transfer.inputs with
    hinputs | ⟨i, refusal, hinputs⟩ | ⟨hinputs, entry, hmem, hmeets⟩
  · rw [hinputs, ok_bind]
    rcases verifyEntries_cases limits .burns transfer.hashWithoutScript 0 transfer.burns with
      hburns | ⟨i, refusal, hburns⟩ | ⟨hburns, entry, hmem, hmeets⟩
    · exact Or.inl hburns
    · exact Or.inr (Or.inl ⟨.burns, i, refusal, hburns⟩)
    · exact Or.inr (Or.inr ⟨hburns, .burns, entry, hmem, hmeets⟩)
  · rw [hinputs]
    exact Or.inr (Or.inl ⟨.inputs, i, refusal, rfl⟩)
  · rw [hinputs]
    exact Or.inr (Or.inr ⟨rfl, .inputs, entry, hmem, hmeets⟩)

/-- Every execution and every authorization comes to an outcome, except that a signature check may
meet the point at infinity; and a verification that does not break down in this way passes or
refuses an entry. -/
theorem outcome_unless_infinity (setting : Setting) (unlock : Bytes) (parameters : List Bytes)
    (lock : Bytes) (transfer : Transfer) (limits : Limits) (list : EntryList) (index : Int) :
    (∀ fault, execute setting unlock parameters lock = .error fault ↔
      fault = .atInfinity ∧ Script.MeetsInfinity setting unlock parameters lock) ∧
    (∀ fault, transfer.authorize limits list index = .error fault ↔
      fault = .atInfinity ∧ ∃ entry, itemAt? (transfer.entries list) index = some entry ∧
        entry.MeetsInfinity limits list transfer.hashWithoutScript) ∧
    (transfer.verify limits = .ok () ∨
      (∃ list i refusal, transfer.verify limits =
        .error (.unauthorized (.entry (EntryList.isBurn list) i refusal))) ∨
      transfer.verify limits = .error .atInfinity ∧
        ∃ list, ∃ entry ∈ transfer.entries list,
          entry.MeetsInfinity limits list transfer.hashWithoutScript) :=
  ⟨fun _ => execute_eq_error_iff, fun _ => authorize_eq_error_iff, verify_cases transfer limits⟩

/-- The hash whose number is one. -/
def oneHash : Digest :=
  ⟨BigEndian.fixed 32 1, by simp⟩

/-- A signature over the number one: the base point stands for the lift, and one for the second
scalar. -/
def infinitySignature : FixedBytes 65 :=
  ⟨BigEndian.fixed 32 secp256k1.baseX ++ BigEndian.fixed 32 1 ++ [0], by simp⟩

/-- The lock script that only checks a signature. -/
def anySigner : Bytes :=
  [Instruction.plain .checkSignature].flatMap Instruction.spell

/-- The signature brings an execution of this lock script down. -/
theorem execute_infinitySignature :
    execute ⟨oneHash.bytes, false, .standard⟩ (unlockWith infinitySignature (.zero 64)) []
      anySigner = .error .atInfinity := by
  have hmeets : (Signature.ofFixedBytes infinitySignature).MeetsInfinity oneHash.bytes :=
    Signature.meetsInfinity_baseX oneHash (by decide) (Or.inl rfl)
  have hunlock := decode_unlockWith infinitySignature (.zero 64)
  have hlock : decode anySigner = .ok [.plain .checkSignature] :=
    decode_flatMap_spell (by simp [Instruction.IsSpellable])
  have hprepare : prepare .standard (unlockWith infinitySignature (.zero 64)) anySigner =
      .ok ([.pushBytes infinitySignature.bytes, .pushBytes (FixedBytes.zero 64).bytes],
        [.plain .checkSignature]) := by
    refine prepare_eq_ok_iff.mpr ⟨?_, by decide, hunlock, hlock, rfl⟩
    rw [length_unlockWith]
    decide
  exact execute_eq_error_iff.mpr ⟨rfl, _, _, [infinitySignature.bytes, (FixedBytes.zero 64).bytes],
    _, hprepare, rfl, by decide, by decide, .refl,
    .check infinitySignature (.zero 64) (by decide) hmeets⟩

end Transfer

end ShardLedger
