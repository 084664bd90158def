import ShardLedger.Proofs.Fault
import ShardLedger.Proofs.Script.Execution

/-!
# Spending or burning

Two executions of the same scripts for the same message, of which one spends and the
other burns, go through the same stacks until one of them breaks off.  A burn instruction
is only carried out by the one that burns, and only such an instruction makes it succeed,
so that at most one of the two authorizes, whatever their limits are.
-/

namespace ShardLedger.Script

/-- Two results are the same, unless one of them breaks off. -/
def AgreeUnless {α : Type} (breaks : α → Prop) (first second : α) : Prop :=
  first = second ∨ breaks first ∨ breaks second

/-- The instruction ends the run with a refusal. -/
def GivesUp (result : Except Fault Effect) : Prop :=
  ∃ refusal stack, result = .ok (abort refusal stack)

theorem AgreeUnless.refl {α : Type} {breaks : α → Prop} (result : α) :
    AgreeUnless breaks result result :=
  Or.inl rfl

/-! ## One instruction under two settings -/

theorem push_agree (limits limits' : Limits) (item : Bytes) (stack : Stack) :
    AgreeUnless GivesUp (.ok (push limits item stack)) (.ok (push limits' item stack)) := by
  rcases push_cases limits item stack with hnext | hfull
  · rcases push_cases limits' item stack with hnext' | hfull'
    · rw [hnext, hnext']
      exact .refl _
    · exact Or.inr (Or.inr ⟨_, _, congrArg _ hfull'⟩)
  · exact Or.inr (Or.inl ⟨_, _, congrArg _ hfull⟩)

theorem replaceTop_agree (limits limits' : Limits) (f : Bytes → Bytes) (stack : Stack) :
    AgreeUnless GivesUp (.ok (replaceTop limits f stack)) (.ok (replaceTop limits' f stack)) := by
  cases stack with
  | nil => exact .refl _
  | cons x rest => exact push_agree limits limits' (f x) rest

theorem Plain.effect_agree {setting other : Setting} (hmessage : setting.message = other.message)
    (op : Plain) (stack : Stack) :
    AgreeUnless GivesUp (op.effect setting stack) (op.effect other stack) := by
  cases op with
  | nop | success | fail => exact .refl _
  | burn =>
      -- The only instruction that asks whether the asset is to be burnt.
      simp only [effect]
      by_cases hburn : setting.burn = true
      · by_cases hburn' : other.burn = true
        · rw [if_pos hburn, if_pos hburn']
          exact .refl _
        · rw [if_neg hburn']
          exact Or.inr (Or.inr ⟨_, _, rfl⟩)
      · rw [if_neg hburn]
        exact Or.inr (Or.inl ⟨_, _, rfl⟩)
  | not | blake256 | sha256 | ripemd160 => exact replaceTop_agree _ _ _ _
  | eq | dup =>
      simp only [effect]
      split
      next => exact push_agree _ _ _ _
      next => exact .refl _
  | pop =>
      simp only [effect]
      split
      next => exact .refl _
      next => exact .refl _
  | swap =>
      simp only [effect]
      split
      next x y rest =>
        rcases push_cases setting.limits x rest with hnext | hfull
        · rcases push_cases other.limits x rest with hnext' | hfull'
          · rw [hnext, hnext']
            exact push_agree _ _ _ _
          · rw [hfull']
            exact Or.inr (Or.inr ⟨_, _, rfl⟩)
        · rw [hfull]
          exact Or.inr (Or.inl ⟨_, _, rfl⟩)
      next => exact .refl _
  | checkSignature =>
      simp only [effect, hmessage]
      split
      next key signature rest =>
        cases Script.checkSignature other.message signature key with
        | error fault => exact .refl _
        | ok valid => exact push_agree _ _ _ _
      next => exact .refl _

theorem Unary.effect_agree (limits limits' : Limits) (op : Unary) (operand : UInt8)
    (stack : Stack) :
    AgreeUnless GivesUp (.ok (op.effect limits operand stack))
      (.ok (op.effect limits' operand stack)) := by
  cases op with
  | jump | jumpIfTrue | jumpIfFalse | drop => exact .refl _
  | push => exact push_agree _ _ _ _
  | copy =>
      simp only [effect]
      split
      next => exact push_agree _ _ _ _
      next => exact .refl _

/-- For the same message, settings only make a difference where one of them gives up. -/
theorem Instruction.effect_agree {setting other : Setting}
    (hmessage : setting.message = other.message) (stack : Stack) (instruction : Instruction) :
    AgreeUnless GivesUp (instruction.effect setting stack) (instruction.effect other stack) := by
  cases instruction with
  | plain op => exact op.effect_agree hmessage stack
  | unary op operand => exact op.effect_agree _ _ operand stack
  | pushBytes data => exact push_agree _ _ data stack

/-! ## Two runs side by side -/

section

variable {setting other : Setting}

/-- If what is left of a run agrees from wherever an instruction leads, so does the run that begins
with it. -/
theorem run_cons_agree (hmessage : setting.message = other.message) {steps : Nat} {stack : Stack}
    {instruction : Instruction} {rest : List Instruction}
    (hrest : ∀ later program, program.length ≤ rest.length →
      AgreeUnless Aborts (run setting (steps + 1) later program)
        (run other (steps + 1) later program)) :
    AgreeUnless Aborts (run setting steps stack (instruction :: rest))
      (run other steps stack (instruction :: rest)) := by
  by_cases hlimit : setting.limits.maxSteps ≤ steps
  · exact Or.inr (Or.inl (run_aborts_of_limit hlimit))
  by_cases hlimit' : other.limits.maxSteps ≤ steps
  · exact Or.inr (Or.inr (run_aborts_of_limit hlimit'))
  rw [Nat.not_le] at hlimit hlimit'
  rcases instruction.effect_agree hmessage stack with
    hsame | ⟨refusal, later, hgives⟩ | ⟨refusal, later, hgives⟩
  · cases heffect' : instruction.effect other stack with
    | error fault =>
        rw [run_fault hlimit (hsame.trans heffect'), run_fault hlimit' heffect']
        exact .refl _
    | ok effect =>
        have heffect := hsame.trans heffect'
        cases effect with
        | next later =>
            rw [run_next hlimit heffect, run_next hlimit' heffect']
            exact hrest later rest (Nat.le_refl _)
        | jump op distance later =>
            rw [run_jump hlimit heffect, run_jump hlimit' heffect']
            by_cases hdistance : distance ≤ rest.length
            · rw [if_pos hdistance, if_pos hdistance]
              exact hrest later _ (by rw [List.length_drop]; omega)
            · rw [if_neg hdistance, if_neg hdistance]
              exact .refl _
        | stop ending later =>
            rw [run_stop hlimit heffect, run_stop hlimit' heffect']
            exact .refl _
  · exact Or.inr (Or.inl (run_aborts hgives))
  · exact Or.inr (Or.inr (run_aborts hgives))

/-- Runs of the same instructions for the same message come to the same end, unless one of them
breaks off. -/
theorem run_agree (hmessage : setting.message = other.message) (steps : Nat) (stack : Stack)
    (program : List Instruction) :
    AgreeUnless Aborts (run setting steps stack program) (run other steps stack program) := by
  -- The induction is on the number of instructions to come, since a jump drops some of them.
  induction hlength : program.length using Nat.strongRecOn generalizing steps stack program with
  | ind length ih =>
      cases program with
      | nil =>
          rw [run_nil, run_nil]
          exact .refl _
      | cons instruction rest =>
          apply run_cons_agree hmessage
          intro later program hshorter
          rw [List.length_cons] at hlength
          exact ih program.length (by omega) (steps + 1) later program rfl

/-- The same holds when an unlock script, parameters and a lock script are run. -/
theorem runPair_agree (hmessage : setting.message = other.message)
    (first second : List Instruction) (parameters : List Bytes) :
    AgreeUnless Aborts (runPair setting first parameters second)
      (runPair other first parameters second) := by
  rcases run_agree hmessage 0 [] first with hsame | hfirst | hfirst
  · rcases runPair_cases other first parameters second with
      ⟨fault, hfirst, hresult⟩ | ⟨middle, hfirst, hways⟩
    · rw [runPair_of_error (hsame.trans hfirst), hresult]
      exact .refl _
    · rcases hways with ⟨⟨refusal, haborted⟩, hresult⟩ |
        ⟨hgoes, ⟨-, hresult⟩ | ⟨stack, hpushed, hresult⟩⟩
      · rw [runPair_of_aborted (hsame.trans hfirst) haborted, hresult]
        exact .refl _
      · exact Or.inr (Or.inr ⟨_, _, _, hresult⟩)
      · cases hpushed' : pushAll? setting.limits parameters middle.stack with
        | none =>
            exact Or.inr (Or.inl ⟨_, _, _, runPair_of_overflow (hsame.trans hfirst) hgoes hpushed'⟩)
        | some stack' =>
            -- What is on the stack does not depend on the limits that left room for it.
            have hstack : stack' = stack :=
              (pushAll?_eq_some hpushed').trans (pushAll?_eq_some hpushed).symm
            rw [runPair_of_pushed (hsame.trans hfirst) hgoes hpushed', hresult, hstack]
            exact run_agree hmessage _ _ _
  · exact Or.inr (Or.inl (runPair_aborts hfirst))
  · exact Or.inr (Or.inr (runPair_aborts hfirst))

end

/-! ## Verdicts -/

theorem verdict_eq_burnt_iff {burn : Bool} {ending : Ending} :
    verdict burn ending = .burnt ↔ ending = .burnt := by
  cases ending with
  | burnt => simp [verdict]
  | aborted refusal => simp [verdict]
  | unlocked | finished => cases burn <;> simp [verdict]

theorem verdict_true_ne_unlocked (ending : Ending) : verdict true ending ≠ .unlocked := by
  cases ending <;> simp [verdict]

theorem Halt.settled_eq_burnt_iff {halt : Halt} :
    halt.settled = .burnt ↔ halt.ending = .burnt := by
  cases hending : halt.ending with
  | unlocked | burnt | aborted => simp [settled, hending]
  | finished =>
      simp only [settled, hending, finalCheck, reduceCtorEq, iff_false]
      split
      next => split <;> simp
      next => simp

/-- Nothing is burnt while spending. -/
theorem ending_ne_burnt_of_runPair {setting : Setting} (hburn : setting.burn = false)
    {first second : List Instruction} {parameters : List Bytes} {halt : Halt}
    (hpair : runPair setting first parameters second = .ok halt) : halt.ending ≠ .burnt := by
  intro hend
  rcases runPair_eq_ok_cases hpair with ⟨refusal, haborted⟩ | ⟨steps, stack, hrun⟩
  · rw [haborted] at hend
    cases hend
  · obtain ⟨-, hburn'⟩ := mem_of_run_burnt hrun hend
    rw [hburn] at hburn'
    cases hburn'

/-- An execution that authorizes does not break off. -/
theorem exists_runPair_of_ok {setting : Setting} {unlock lock : Bytes} {parameters : List Bytes}
    {outcome : Outcome} (hexecute : execute setting unlock parameters lock = .ok outcome)
    (hok : outcome.ok = true) :
    ∃ first second halt, decode unlock = .ok first ∧ decode lock = .ok second ∧
      runPair setting first parameters second = .ok halt ∧
      (∀ refusal, verdict setting.burn halt.settled ≠ .refused refusal) ∧
      ¬Aborts (runPair setting first parameters second) := by
  have hv := Outcome.ok_eq_true_iff.mp hok
  obtain ⟨first, second, halt, hprepare, hpair, hverdict, -⟩ := (execute_eq_ok_iff hv).mp hexecute
  obtain ⟨-, -, hfirst, hsecond, -⟩ := prepare_eq_ok_iff.mp hprepare
  rw [← hverdict] at hv
  refine ⟨first, second, halt, hfirst, hsecond, hpair, hv, ?_⟩
  rintro ⟨refusal, steps, stack, haborts⟩
  rw [haborts] at hpair
  cases hpair
  exact hv refusal rfl

/-- Spending never burns, burning never releases, and of a spending and a burning execution of the
same scripts for the same message at most one authorizes. -/
theorem execute_exclusive (message unlock : Bytes) (parameters : List Bytes) (lock : Bytes)
    (limits limits' : Limits) :
    (∀ steps, execute ⟨message, false, limits⟩ unlock parameters lock ≠ .ok ⟨.burnt, steps⟩) ∧
    (∀ steps, execute ⟨message, true, limits⟩ unlock parameters lock ≠ .ok ⟨.unlocked, steps⟩) ∧
    ∀ spending burning,
      execute ⟨message, false, limits⟩ unlock parameters lock = .ok spending →
      execute ⟨message, true, limits'⟩ unlock parameters lock = .ok burning →
        ¬(spending.ok = true ∧ burning.ok = true) := by
  refine ⟨?_, ?_, ?_⟩
  · intro steps hexecute
    obtain ⟨_, _, halt, -, hpair, hverdict, -⟩ := (execute_eq_ok_iff (by simp)).mp hexecute
    rw [verdict_eq_burnt_iff, Halt.settled_eq_burnt_iff] at hverdict
    exact ending_ne_burnt_of_runPair rfl hpair hverdict
  · intro steps hexecute
    obtain ⟨_, _, halt, -, -, hverdict, -⟩ := (execute_eq_ok_iff (by simp)).mp hexecute
    exact verdict_true_ne_unlocked _ hverdict
  · rintro spending burning hspending hburning ⟨hok, hok'⟩
    obtain ⟨first, second, halt, hfirst, hsecond, hpair, -, hruns⟩ :=
      exists_runPair_of_ok hspending hok
    obtain ⟨_, _, halt', hfirst', hsecond', hpair', hv', hruns'⟩ :=
      exists_runPair_of_ok hburning hok'
    rw [hfirst] at hfirst'
    rw [hsecond] at hsecond'
    cases hfirst'
    cases hsecond'
    -- Neither breaks off, so both come to the same end; the burning one has burnt.
    have hmessage : (⟨message, false, limits⟩ : Setting).message =
        (⟨message, true, limits'⟩ : Setting).message := rfl
    have hsame := (runPair_agree hmessage first second parameters).resolve_right
      (not_or.mpr ⟨hruns, hruns'⟩)
    rw [hpair, hpair'] at hsame
    cases hsame
    exact ending_ne_burnt_of_runPair rfl hpair (Halt.ending_eq_burnt hv')

/-- The lock script that burns whatever it is given. -/
def burnAlways : Bytes :=
  (Instruction.plain .burn).spell

theorem execute_exclusive_burnAlways :
    execute ⟨[], true, .standard⟩ [] [] burnAlways = .ok ⟨.burnt, 1⟩ ∧
      ∀ spending, execute ⟨[], false, .standard⟩ [] [] burnAlways = .ok spending →
        spending.ok = false := by
  have hburning : execute ⟨[], true, .standard⟩ [] [] burnAlways = .ok ⟨.burnt, 1⟩ := by cbv
  refine ⟨hburning, fun spending hspending => ?_⟩
  obtain ⟨-, -, hexclusive⟩ := execute_exclusive [] [] [] burnAlways .standard .standard
  rw [← Bool.not_eq_true]
  intro hok
  exact hexclusive spending _ hspending hburning ⟨hok, rfl⟩

end ShardLedger.Script
