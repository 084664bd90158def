import ShardLedger.Proofs.Script.Execution
import ShardLedger.Proofs.Script.Progress
import ShardLedger.Proofs.Signature.Infinity

/-!
# Executions that break down

An execution answers every pair of scripts with an outcome, with one exception: a run may
arrive at a signature check whose signature meets the point at infinity.  This file follows
a run step by step to the instruction where it breaks down, and says exactly which
executions do.
-/

namespace ShardLedger.Script

/-! ## Instructions -/

/-- A signature check only breaks down at infinity. -/
theorem checkSignature_eq_error_iff {message signature key : Bytes} {fault : Fault} :
    checkSignature message signature key = .error fault ↔
      fault = .atInfinity ∧ ∃ (s : FixedBytes 65) (k : PublicKey),
        signature = s.bytes ∧ key = k.bytes ∧ (Signature.ofFixedBytes s).MeetsInfinity message := by
  constructor
  · intro hfault
    unfold checkSignature at hfault
    split at hfault
    next s k hs hk =>
      rw [FixedBytes.ofBytes?_eq_some_iff] at hs hk
      split at hfault
      next => cases hfault
      next => cases hfault
      next fault' hsound hrecover =>
        cases hfault
        rcases Signature.recover_eq_error_cases hrecover with ⟨flaw, rfl⟩ | ⟨hinfinity, hmeets⟩
        · exact absurd rfl (hsound flaw)
        · exact ⟨hinfinity, s, k, hs, hk, hmeets⟩
    next => cases hfault
  · rintro ⟨rfl, s, k, rfl, rfl, hmeets⟩
    simp only [checkSignature, FixedBytes.ofBytes?_bytes,
      Signature.recover_eq_atInfinity hmeets]

theorem Plain.exists_effect {op : Plain} (hop : op ≠ .checkSignature) (setting : Setting)
    (stack : Stack) : ∃ effect, op.effect setting stack = .ok effect := by
  cases op with
  | checkSignature => exact absurd rfl hop
  | nop | burn | success | fail | not | blake256 | sha256 | ripemd160 => exact ⟨_, rfl⟩
  | eq | pop | dup =>
      simp only [Plain.effect]
      split
      next => exact ⟨_, rfl⟩
      next => exact ⟨_, rfl⟩
  | swap =>
      simp only [Plain.effect]
      split
      next x y rest =>
        split
        next => exact ⟨_, rfl⟩
        next => exact ⟨_, rfl⟩
      next => exact ⟨_, rfl⟩

/-- No instruction but a signature check breaks down. -/
theorem Instruction.effect_eq_error_iff {setting : Setting} {stack : Stack}
    {instruction : Instruction} {fault : Fault} :
    instruction.effect setting stack = .error fault ↔
      instruction = .plain .checkSignature ∧ ∃ key signature rest,
        stack = key :: signature :: rest ∧
        Script.checkSignature setting.message signature key = .error fault := by
  constructor
  · intro hfault
    cases instruction with
    | plain op =>
        by_cases hop : op = .checkSignature
        · subst hop
          refine ⟨rfl, ?_⟩
          simp only [effect, Plain.effect] at hfault
          split at hfault
          next key signature rest =>
            rcases bind_eq_error_iff.mp hfault with hcheck | ⟨_, -, hpushed⟩
            · exact ⟨key, signature, rest, rfl, hcheck⟩
            · cases hpushed
          next => cases hfault
        · obtain ⟨effect, heffect⟩ := Plain.exists_effect hop setting stack
          rw [Instruction.effect, heffect] at hfault
          cases hfault
    | unary op operand => cases hfault
    | pushBytes data => cases hfault
  · rintro ⟨rfl, key, signature, rest, rfl, hcheck⟩
    simp only [effect, Plain.effect, hcheck, error_bind]

/-! ## Runs -/

/-- The next instruction checks a signature that meets infinity. -/
inductive Progress.MeetsInfinity (setting : Setting) : Progress → Prop
  | check {steps : Nat} {stack : Stack} {rest : List Instruction} (signature : FixedBytes 65)
      (key : PublicKey) (hsteps : steps < setting.limits.maxSteps)
      (hmeets : (Signature.ofFixedBytes signature).MeetsInfinity setting.message) :
      MeetsInfinity setting
        ⟨steps, key.bytes :: signature.bytes :: stack, .plain .checkSignature :: rest⟩

theorem Progress.MeetsInfinity.run_eq {setting : Setting} {p : Progress}
    (hmeets : p.MeetsInfinity setting) : p.run setting = .error .atInfinity := by
  cases hmeets with
  | check signature key hsteps hmeets =>
      refine run_fault hsteps (Instruction.effect_eq_error_iff.mpr ⟨rfl, _, _, _, rfl, ?_⟩)
      exact checkSignature_eq_error_iff.mpr ⟨rfl, signature, key, rfl, rfl, hmeets⟩

/-- A run breaks down exactly when it comes to a signature that meets infinity. -/
theorem run_eq_error_iff {setting : Setting} {steps : Nat} {stack : Stack}
    {program : List Instruction} {fault : Fault} :
    run setting steps stack program = .error fault ↔
      fault = .atInfinity ∧ ∃ p, Relation.ReflTransGen (Step setting) ⟨steps, stack, program⟩ p ∧
        p.MeetsInfinity setting := by
  constructor
  · intro hfault
    -- The induction follows the run; every instruction that goes on adds a step in front.
    fun_induction run setting steps stack program with
    | case1 | case2 | case6 | case7 => cases hfault
    | case3 steps stack instruction rest hsteps fault' heffect =>
        cases hfault
        obtain ⟨rfl, key, signature, later, rfl, hcheck⟩ :=
          Instruction.effect_eq_error_iff.mp heffect
        obtain ⟨rfl, s, k, rfl, rfl, hmeets⟩ := checkSignature_eq_error_iff.mp hcheck
        exact ⟨rfl, _, .refl, .check s k (Nat.not_le.mp hsteps) hmeets⟩
    | case4 steps stack instruction rest hsteps later heffect ih =>
        obtain ⟨rfl, p, hreaches, hmeets⟩ := ih hfault
        exact ⟨rfl, p, .head (.next (Nat.not_le.mp hsteps) heffect) hreaches, hmeets⟩
    | case5 steps stack instruction rest hsteps op distance later heffect hdistance ih =>
        obtain ⟨rfl, p, hreaches, hmeets⟩ := ih hfault
        exact ⟨rfl, p, .head (.jump (Nat.not_le.mp hsteps) heffect hdistance) hreaches, hmeets⟩
  · rintro ⟨rfl, p, hreaches, hmeets⟩
    exact (run_eq_of_reaches hreaches).trans hmeets.run_eq

/-! ## Executions -/

/-- Only the lock script can break down, on the stack that the unlock script and the parameters
leave. -/
theorem runPair_eq_error_iff {setting : Setting} {first second : List Instruction}
    {items parameters : List Bytes} {fault : Fault} (hpushes : Pushes first items) :
    runPair setting first parameters second = .error fault ↔
      items.length ≤ setting.limits.maxSteps ∧
        items.length + parameters.length ≤ setting.limits.maxStack ∧
        run setting items.length (parameters.reverse ++ items.reverse) second = .error fault := by
  have hcases : Aborts (runPair setting first parameters second) ∨ _ :=
    runPair_pushes_cases hpushes
  constructor
  · intro hfault
    rcases hcases with ⟨refusal, steps, stack, haborts⟩ | ⟨hsteps, hroom⟩
    · rw [haborts] at hfault
      cases hfault
    · rw [runPair_pushes hpushes hsteps hroom] at hfault
      exact ⟨hsteps, hroom, hfault⟩
  · rintro ⟨hsteps, hroom, hfault⟩
    rw [runPair_pushes hpushes hsteps hroom]
    exact hfault

/-- The lock script of an execution comes to a signature check that meets infinity. -/
def MeetsInfinity (setting : Setting) (unlock : Bytes) (parameters : List Bytes) (lock : Bytes) :
    Prop :=
  ∃ first second items p, prepare setting.limits unlock lock = .ok (first, second) ∧
    Pushes first items ∧ items.length ≤ setting.limits.maxSteps ∧
    items.length + parameters.length ≤ setting.limits.maxStack ∧
    Relation.ReflTransGen (Step setting)
      ⟨items.length, parameters.reverse ++ items.reverse, second⟩ p ∧
    p.MeetsInfinity setting

theorem execute_eq_error_iff {setting : Setting} {unlock lock : Bytes} {parameters : List Bytes}
    {fault : Fault} :
    execute setting unlock parameters lock = .error fault ↔
      fault = .atInfinity ∧ MeetsInfinity setting unlock parameters lock := by
  unfold execute
  cases hprepare : prepare setting.limits unlock lock with
  | error refusal =>
      constructor
      · intro hfault
        cases hfault
      · rintro ⟨-, _, _, _, _, hscripts, -⟩
        rw [hprepare] at hscripts
        cases hscripts
  | ok scripts =>
      obtain ⟨first, second⟩ := scripts
      obtain ⟨-, -, -, -, hpush⟩ := prepare_eq_ok_iff.mp hprepare
      obtain ⟨items, hpushes⟩ := all_isPush_iff_exists_pushes.mp hpush
      constructor
      · intro hfault
        rcases bind_eq_error_iff.mp hfault with hpair | ⟨_, -, houtcome⟩
        · obtain ⟨hsteps, hroom, hrun⟩ := (runPair_eq_error_iff hpushes).mp hpair
          obtain ⟨rfl, p, hreaches, hmeets⟩ := run_eq_error_iff.mp hrun
          exact ⟨rfl, first, second, items, p, hprepare, hpushes, hsteps, hroom, hreaches, hmeets⟩
        · cases houtcome
      · rintro ⟨rfl, _, _, items', p, hscripts, hpushes', hsteps, hroom, hreaches, hmeets⟩
        rw [hprepare] at hscripts
        cases hscripts
        have hrun := run_eq_error_iff.mpr ⟨rfl, p, hreaches, hmeets⟩
        have hpair := (runPair_eq_error_iff hpushes').mpr ⟨hsteps, hroom, hrun⟩
        exact bind_eq_error_iff.mpr (Or.inl hpair)

end ShardLedger.Script
