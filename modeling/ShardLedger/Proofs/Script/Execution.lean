import ShardLedger.Proofs.Fault
import ShardLedger.Proofs.Script.Pushes

/-!
# The stages of an execution

An execution checks and decodes both scripts, runs the unlock script, pushes the
parameters and runs the lock script.  This file says when it gets through the first
stages, so that only the run of the lock script remains to be followed.
-/

namespace ShardLedger.Script

theorem prepare_eq_ok_iff {limits : Limits} {unlock lock : Bytes}
    {first second : List Instruction} :
    prepare limits unlock lock = .ok (first, second) ↔
      unlock.length ≤ limits.maxLength ∧ lock.length ≤ limits.maxLength ∧
        decode unlock = .ok first ∧ decode lock = .ok second ∧
        first.all Instruction.isPush = true := by
  unfold prepare
  split
  next hlong => simp [Nat.not_le.mpr hlong]
  next hunlock =>
    split
    next hlong => simp [Nat.not_le.mpr hlong]
    next hlock =>
      cases decode unlock with
      | error flaw => simp
      | ok instructions =>
          cases decode lock with
          | error flaw => simp
          | ok program => simp; grind

theorem execute_of_prepare_error {setting : Setting} {unlock lock : Bytes}
    {parameters : List Bytes} {refusal : Refusal}
    (hprepare : prepare setting.limits unlock lock = .error refusal) :
    execute setting unlock parameters lock = .ok (.refusedAtOnce refusal) := by
  rw [execute, hprepare]

/-- What an execution comes to when its runs end. -/
def Halt.outcome (setting : Setting) (halt : Halt) : Outcome :=
  ⟨verdict setting.burn halt.settled, halt.steps⟩

theorem execute_of_prepare_ok {setting : Setting} {unlock lock : Bytes} {parameters : List Bytes}
    {first second : List Instruction}
    (hprepare : prepare setting.limits unlock lock = .ok (first, second)) :
    execute setting unlock parameters lock =
      (runPair setting first parameters second).map (Halt.outcome setting) := by
  simp only [execute, hprepare]
  cases runPair setting first parameters second with
  | error fault => rfl
  | ok halt => simp only [ok_bind, pure_eq_ok, map_ok, Halt.outcome]

/-- An execution is refused before it starts, or it comes to what its runs end with. -/
theorem execute_eq_ok_cases {setting : Setting} {unlock lock : Bytes} {parameters : List Bytes}
    {outcome : Outcome} (hexecute : execute setting unlock parameters lock = .ok outcome) :
    (∃ refusal, prepare setting.limits unlock lock = .error refusal ∧
      outcome = .refusedAtOnce refusal) ∨
      ∃ first second halt, prepare setting.limits unlock lock = .ok (first, second) ∧
        runPair setting first parameters second = .ok halt ∧ halt.outcome setting = outcome := by
  cases hprepare : prepare setting.limits unlock lock with
  | error refusal =>
      rw [execute_of_prepare_error hprepare] at hexecute
      exact Or.inl ⟨refusal, rfl, (Except.ok.inj hexecute).symm⟩
  | ok scripts =>
      rw [execute_of_prepare_ok hprepare] at hexecute
      obtain ⟨halt, hpair, houtcome⟩ := map_eq_ok_iff.mp hexecute
      exact Or.inr ⟨_, _, halt, rfl, hpair, houtcome⟩

/-- An execution authorizes exactly when both scripts are accepted and the run ends well. -/
theorem execute_eq_ok_iff {setting : Setting} {unlock lock : Bytes} {parameters : List Bytes}
    {v : Verdict} {steps : Nat} (hv : ∀ refusal, v ≠ .refused refusal) :
    execute setting unlock parameters lock = .ok ⟨v, steps⟩ ↔
      ∃ first second halt, prepare setting.limits unlock lock = .ok (first, second) ∧
        runPair setting first parameters second = .ok halt ∧
        verdict setting.burn halt.settled = v ∧ halt.steps = steps := by
  constructor
  · intro hexecute
    rcases execute_eq_ok_cases hexecute with
      ⟨refusal, -, hrefused⟩ | ⟨first, second, halt, hprepare, hpair, houtcome⟩
    · cases hrefused
      exact absurd rfl (hv refusal)
    · cases houtcome
      exact ⟨first, second, halt, hprepare, hpair, rfl, rfl⟩
  · rintro ⟨first, second, halt, hprepare, hpair, rfl, rfl⟩
    rw [execute_of_prepare_ok hprepare, hpair]
    rfl

theorem Outcome.ok_eq_true_iff {outcome : Outcome} :
    outcome.ok = true ↔ ∀ refusal, outcome.verdict ≠ .refused refusal := by
  unfold Outcome.ok
  split
  next refusal hrefused => simp [hrefused]
  next hother =>
    constructor
    · intro _ refusal hrefused
      exact hother refusal hrefused
    · intro _
      rfl

/-- A burn is only authorized by a run that burns. -/
theorem Halt.ending_eq_burnt {halt : Halt}
    (hv : ∀ refusal, verdict true halt.settled ≠ .refused refusal) : halt.ending = .burnt := by
  unfold Halt.settled at hv
  split at hv
  next =>
    unfold finalCheck at hv
    split at hv
    next =>
      split at hv
      · exact absurd rfl (hv .notBurnt)
      · exact absurd rfl (hv .noTrueValue)
    next => exact absurd rfl (hv .noTrueValue)
  next hfinished =>
    cases hend : halt.ending with
    | burnt => rfl
    | unlocked =>
        rw [hend] at hv
        exact absurd rfl (hv .notBurnt)
    | finished => exact absurd hend hfinished
    | aborted refusal =>
        rw [hend] at hv
        exact absurd rfl (hv refusal)

/-! ## The run of a pair -/

section

variable {setting : Setting} {first second : List Instruction} {items parameters : List Bytes}

theorem runPair_of_error {fault : Fault} (hfirst : run setting 0 [] first = .error fault) :
    runPair setting first parameters second = .error fault := by
  rw [runPair, hfirst, error_bind]

/-- An unlock script that breaks off ends the execution. -/
theorem runPair_of_aborted {middle : Halt} (hfirst : run setting 0 [] first = .ok middle)
    {refusal : Refusal} (haborted : middle.ending = .aborted refusal) :
    runPair setting first parameters second = .ok middle := by
  rw [runPair, hfirst, ok_bind]
  simp only [haborted, pure_eq_ok]

theorem runPair_aborts (haborts : Aborts (run setting 0 [] first)) :
    Aborts (runPair setting first parameters second) := by
  obtain ⟨refusal, steps, stack, hfirst⟩ := haborts
  exact ⟨refusal, steps, stack, runPair_of_aborted hfirst rfl⟩

/-- Otherwise the parameters are pushed, and the lock script runs on the stack with them. -/
theorem runPair_of_pushed {middle : Halt} (hfirst : run setting 0 [] first = .ok middle)
    (hgoes : ∀ refusal, middle.ending ≠ .aborted refusal) {stack : Stack}
    (hpushed : pushAll? setting.limits parameters middle.stack = some stack) :
    runPair setting first parameters second = run setting middle.steps stack second := by
  rw [runPair, hfirst, ok_bind]
  split
  next refusal haborted => exact absurd haborted (hgoes refusal)
  next => simp only [hpushed]

/-- Parameters that overflow the stack end the execution as well. -/
theorem runPair_of_overflow {middle : Halt} (hfirst : run setting 0 [] first = .ok middle)
    (hgoes : ∀ refusal, middle.ending ≠ .aborted refusal)
    (hfull : pushAll? setting.limits parameters middle.stack = none) :
    runPair setting first parameters second =
      .ok { middle with ending := .aborted .stackOverflow } := by
  rw [runPair, hfirst, ok_bind]
  split
  next refusal haborted => exact absurd haborted (hgoes refusal)
  next => simp only [hfull, pure_eq_ok]

/-- The four ways that an execution can take. -/
theorem runPair_cases (setting : Setting) (first : List Instruction) (parameters : List Bytes)
    (second : List Instruction) :
    (∃ fault, run setting 0 [] first = .error fault ∧
      runPair setting first parameters second = .error fault) ∨
    ∃ middle, run setting 0 [] first = .ok middle ∧
      ((∃ refusal, middle.ending = .aborted refusal) ∧
        runPair setting first parameters second = .ok middle ∨
      (∀ refusal, middle.ending ≠ .aborted refusal) ∧
        (pushAll? setting.limits parameters middle.stack = none ∧
          runPair setting first parameters second =
            .ok { middle with ending := .aborted .stackOverflow } ∨
        ∃ stack, pushAll? setting.limits parameters middle.stack = some stack ∧
          runPair setting first parameters second = run setting middle.steps stack second)) := by
  cases hfirst : run setting 0 [] first with
  | error fault => exact Or.inl ⟨fault, rfl, runPair_of_error hfirst⟩
  | ok middle =>
      refine Or.inr ⟨middle, rfl, ?_⟩
      by_cases haborted : ∃ refusal, middle.ending = .aborted refusal
      · obtain ⟨refusal, haborted⟩ := haborted
        exact Or.inl ⟨⟨refusal, haborted⟩, runPair_of_aborted hfirst haborted⟩
      · have hgoes := not_exists.mp haborted
        refine Or.inr ⟨hgoes, ?_⟩
        cases hpushed : pushAll? setting.limits parameters middle.stack with
        | none => exact Or.inl ⟨rfl, runPair_of_overflow hfirst hgoes hpushed⟩
        | some stack => exact Or.inr ⟨stack, rfl, runPair_of_pushed hfirst hgoes hpushed⟩

/-- Either something breaks off before the lock script, or the lock script decides. -/
theorem runPair_eq_ok_cases {halt : Halt}
    (hpair : runPair setting first parameters second = .ok halt) :
    (∃ refusal, halt.ending = .aborted refusal) ∨
      ∃ steps stack, run setting steps stack second = .ok halt := by
  rcases runPair_cases setting first parameters second with
    ⟨fault, -, hresult⟩ | ⟨middle, -, ⟨haborted, hresult⟩ | ⟨-, ⟨-, hresult⟩ |
      ⟨stack, -, hresult⟩⟩⟩
  · rw [hresult] at hpair
    cases hpair
  · rw [hresult] at hpair
    cases hpair
    exact Or.inl haborted
  · rw [hresult] at hpair
    cases hpair
    exact Or.inl ⟨.stackOverflow, rfl⟩
  · exact Or.inr ⟨middle.steps, stack, hresult.symm.trans hpair⟩

theorem run_unlock (hpushes : Pushes first items)
    (hsteps : items.length ≤ setting.limits.maxSteps)
    (hstack : items.length ≤ setting.limits.maxStack) :
    run setting 0 [] first = .ok ⟨.finished, items.length, items.reverse⟩ := by
  rw [run_pushes hpushes (by omega) (by rw [List.length_nil]; omega), Nat.zero_add,
    List.append_nil]

/-- An unlock script breaks off unless the limits leave room for its items. -/
theorem run_unlock_cases (hpushes : Pushes first items) :
    Aborts (run setting 0 [] first) ∨
      items.length ≤ setting.limits.maxSteps ∧ items.length ≤ setting.limits.maxStack := by
  have hcases : Aborts (run setting 0 [] first) ∨
      0 + items.length ≤ setting.limits.maxSteps ∧
        ([] : Stack).length + items.length ≤ setting.limits.maxStack :=
    run_pushes_cases hpushes (Nat.zero_le _) (Nat.zero_le _)
  rwa [Nat.zero_add, List.length_nil, Nat.zero_add] at hcases

/-- With a pushing unlock script, the lock script runs on the parameters and the pushed items, if
the limits allow to get there. -/
theorem runPair_pushes (hpushes : Pushes first items)
    (hsteps : items.length ≤ setting.limits.maxSteps)
    (hstack : items.length + parameters.length ≤ setting.limits.maxStack) :
    runPair setting first parameters second =
      run setting items.length (parameters.reverse ++ items.reverse) second := by
  have hunlock := run_unlock hpushes hsteps (Nat.le_of_add_right_le hstack)
  have hitems : items.reverse.length ≤ setting.limits.maxStack := by
    rw [List.length_reverse]
    omega
  refine runPair_of_pushed hunlock nofun ((pushAll?_eq_some_iff hitems).mpr ⟨?_, rfl⟩)
  rwa [List.length_reverse]

/-- Otherwise the execution breaks off before the lock script. -/
theorem runPair_pushes_cases (hpushes : Pushes first items) :
    Aborts (runPair setting first parameters second) ∨
      items.length ≤ setting.limits.maxSteps ∧
        items.length + parameters.length ≤ setting.limits.maxStack := by
  rcases run_unlock_cases hpushes with haborts | ⟨hsteps, hstack⟩
  · exact Or.inl (runPair_aborts haborts)
  · have hunlock := run_unlock hpushes hsteps hstack
    rw [← List.length_reverse] at hstack
    cases hpushed : pushAll? setting.limits parameters items.reverse with
    | none => exact Or.inl ⟨_, _, _, runPair_of_overflow hunlock nofun hpushed⟩
    | some stack =>
        obtain ⟨hroom, -⟩ := (pushAll?_eq_some_iff hstack).mp hpushed
        rw [List.length_reverse] at hroom
        exact Or.inr ⟨hsteps, hroom⟩

end

end ShardLedger.Script
