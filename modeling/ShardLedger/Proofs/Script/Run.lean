import ShardLedger.Script.Machine

/-!
# Single steps of a run

A run begins an instruction only below the step limit, and what follows depends on
the instruction's effect.  This file turns the effects into equations of `run`, and
says which instructions can end a run in which way.
-/

namespace ShardLedger.Script

/-- The run breaks off, whatever the reason. -/
def Aborts (result : Except Fault Halt) : Prop :=
  ∃ refusal steps stack, result = .ok ⟨.aborted refusal, steps, stack⟩

/-! ## Pushing onto the stack -/

theorem push_of_lt {limits : Limits} {item : Bytes} {stack : Stack}
    (hroom : stack.length < limits.maxStack) :
    push limits item stack = .next (item :: stack) := by
  rw [push, if_neg (Nat.not_le.mpr hroom)]

theorem push_of_full {limits : Limits} {item : Bytes} {stack : Stack}
    (hfull : limits.maxStack ≤ stack.length) :
    push limits item stack = abort .stackOverflow stack := by
  rw [push, if_pos hfull]

/-- A push goes on or overflows; it does nothing else. -/
theorem push_cases (limits : Limits) (item : Bytes) (stack : Stack) :
    push limits item stack = .next (item :: stack) ∨
      push limits item stack = abort .stackOverflow stack := by
  rcases Nat.lt_or_ge stack.length limits.maxStack with hroom | hfull
  · exact Or.inl (push_of_lt hroom)
  · exact Or.inr (push_of_full hfull)

@[simp]
theorem isTrue_truthItem (b : Bool) : isTrue (truthItem b) = b := by
  cases b <;> rfl

/-! ## Equations of a run -/

section

variable {setting : Setting} {steps : Nat} {stack later : Stack}
  {instruction : Instruction} {rest : List Instruction}

theorem run_nil (setting : Setting) (steps : Nat) (stack : Stack) :
    run setting steps stack [] = .ok ⟨.finished, steps, stack⟩ := by
  rw [run]

theorem run_aborts_of_limit (hlimit : setting.limits.maxSteps ≤ steps) :
    Aborts (run setting steps stack (instruction :: rest)) := by
  refine ⟨.stepLimit, steps + 1, stack, ?_⟩
  rw [run, if_pos hlimit]

theorem run_next (hsteps : steps < setting.limits.maxSteps)
    (heffect : instruction.effect setting stack = .ok (.next later)) :
    run setting steps stack (instruction :: rest) = run setting (steps + 1) later rest := by
  rw [run, if_neg (Nat.not_le.mpr hsteps), heffect]

theorem run_stop {ending : Ending} (hsteps : steps < setting.limits.maxSteps)
    (heffect : instruction.effect setting stack = .ok (.stop ending later)) :
    run setting steps stack (instruction :: rest) = .ok ⟨ending, steps + 1, later⟩ := by
  rw [run, if_neg (Nat.not_le.mpr hsteps), heffect]

theorem run_fault {fault : Fault} (hsteps : steps < setting.limits.maxSteps)
    (heffect : instruction.effect setting stack = .error fault) :
    run setting steps stack (instruction :: rest) = .error fault := by
  rw [run, if_neg (Nat.not_le.mpr hsteps), heffect]

theorem run_jump {op : Unary} {distance : Nat} (hsteps : steps < setting.limits.maxSteps)
    (heffect : instruction.effect setting stack = .ok (.jump op distance later)) :
    run setting steps stack (instruction :: rest) =
      if distance ≤ rest.length then run setting (steps + 1) later (rest.drop distance)
      else .ok ⟨.aborted (.jumpedOut op), steps + 1, later⟩ := by
  rw [run, if_neg (Nat.not_le.mpr hsteps), heffect]

/-- An instruction that gives up ends the run, if the step limit has not ended it before. -/
theorem run_aborts {refusal : Refusal}
    (heffect : instruction.effect setting stack = .ok (abort refusal later)) :
    Aborts (run setting steps stack (instruction :: rest)) := by
  rcases Nat.lt_or_ge steps setting.limits.maxSteps with hsteps | hlimit
  · exact ⟨refusal, steps + 1, later, run_stop hsteps heffect⟩
  · exact run_aborts_of_limit hlimit

/-- A jump past the end breaks off, if the step limit has not ended the run before. -/
theorem run_aborts_of_jump {op : Unary} {distance : Nat} (hfar : rest.length < distance)
    (heffect : instruction.effect setting stack = .ok (.jump op distance later)) :
    Aborts (run setting steps stack (instruction :: rest)) := by
  rcases Nat.lt_or_ge steps setting.limits.maxSteps with hsteps | hlimit
  · refine ⟨.jumpedOut op, steps + 1, later, ?_⟩
    rw [run_jump hsteps heffect, if_neg (Nat.not_le.mpr hfar)]
  · exact run_aborts_of_limit hlimit

theorem run_push {item : Bytes} (hsteps : steps < setting.limits.maxSteps)
    (hroom : later.length < setting.limits.maxStack)
    (heffect : instruction.effect setting stack = .ok (push setting.limits item later)) :
    run setting steps stack (instruction :: rest) =
      run setting (steps + 1) (item :: later) rest := by
  rw [push_of_lt hroom] at heffect
  exact run_next hsteps heffect

/-- To show that a run breaks off or has a property, follow it over an instruction that goes on. -/
theorem aborts_or_of_next {p : Prop}
    (heffect : instruction.effect setting stack = .ok (.next later))
    (hlater : steps < setting.limits.maxSteps →
      Aborts (run setting (steps + 1) later rest) ∨ p) :
    Aborts (run setting steps stack (instruction :: rest)) ∨ p := by
  rcases Nat.lt_or_ge steps setting.limits.maxSteps with hsteps | hlimit
  · rw [run_next hsteps heffect]
    exact hlater hsteps
  · exact Or.inl (run_aborts_of_limit hlimit)

/-- The same for an instruction that pushes, which needs a free place on the stack. -/
theorem aborts_or_of_push {p : Prop} {item : Bytes}
    (heffect : instruction.effect setting stack = .ok (push setting.limits item later))
    (hlater : steps < setting.limits.maxSteps → later.length < setting.limits.maxStack →
      Aborts (run setting (steps + 1) (item :: later) rest) ∨ p) :
    Aborts (run setting steps stack (instruction :: rest)) ∨ p := by
  rcases Nat.lt_or_ge later.length setting.limits.maxStack with hroom | hfull
  · rw [push_of_lt hroom] at heffect
    exact aborts_or_of_next heffect fun hsteps => hlater hsteps hroom
  · rw [push_of_full hfull] at heffect
    exact Or.inl (run_aborts heffect)

end

/-! ## How an instruction can end a run -/

/-- Whether an instruction with an operand jumps over the instructions behind it. -/
def Unary.isJump : Unary → Bool
  | jump | jumpIfTrue | jumpIfFalse => true
  | push | copy | drop => false

/-- What an instruction of some kind may bring about: it goes on, jumps as its operand says, or
ends the run. -/
inductive Effect.Allowed (setting : Setting) : Instruction → Effect → Prop
  | next {instruction : Instruction} (stack : Stack) : Allowed setting instruction (.next stack)
  | jump {op : Unary} {operand : UInt8} (stack : Stack) (hjump : op.isJump = true) :
      Allowed setting (.unary op operand) (.jump op operand.toNat stack)
  | abort {instruction : Instruction} (refusal : Refusal) (stack : Stack) :
      Allowed setting instruction (Script.abort refusal stack)
  | unlocked (stack : Stack) : Allowed setting (.plain .success) (.stop .unlocked stack)
  | burnt (stack : Stack) (hburn : setting.burn = true) :
      Allowed setting (.plain .burn) (.stop .burnt stack)

theorem Effect.Allowed.push (setting : Setting) (instruction : Instruction) (item : Bytes)
    (stack : Stack) : Allowed setting instruction (Script.push setting.limits item stack) := by
  rcases push_cases setting.limits item stack with hpush | hpush
  · rw [hpush]
    exact .next _
  · rw [hpush]
    exact .abort _ _

theorem Effect.Allowed.replaceTop (setting : Setting) (instruction : Instruction)
    (f : Bytes → Bytes) (stack : Stack) :
    Allowed setting instruction (Script.replaceTop setting.limits f stack) := by
  cases stack with
  | nil => exact .abort _ _
  | cons x rest => exact .push _ _ _ _

theorem Plain.effect_allowed {setting : Setting} {op : Plain} {stack : Stack} {effect : Effect}
    (heffect : op.effect setting stack = .ok effect) :
    Effect.Allowed setting (.plain op) effect := by
  cases op with
  | nop =>
      cases heffect
      exact .next _
  | burn =>
      cases heffect
      split
      next hburn => exact .burnt _ hburn
      next => exact .abort _ _
  | success =>
      cases heffect
      exact .unlocked _
  | fail =>
      cases heffect
      exact .abort _ _
  | not | blake256 | sha256 | ripemd160 =>
      cases heffect
      exact .replaceTop _ _ _ _
  | eq =>
      simp only [Plain.effect] at heffect
      split at heffect <;> cases heffect
      · exact .push _ _ _ _
      · exact .abort _ _
  | pop =>
      simp only [Plain.effect] at heffect
      split at heffect <;> cases heffect
      · exact .next _
      · exact .abort _ _
  | dup =>
      simp only [Plain.effect] at heffect
      split at heffect <;> cases heffect
      · exact .push _ _ _ _
      · exact .abort _ _
  | swap =>
      simp only [Plain.effect] at heffect
      split at heffect
      next x y rest =>
        rcases push_cases setting.limits x rest with hpush | hpush <;> rw [hpush] at heffect <;>
          cases heffect
        · exact .push _ _ _ _
        · exact .abort _ _
      next =>
        cases heffect
        exact .abort _ _
  | checkSignature =>
      simp only [Plain.effect] at heffect
      split at heffect
      next key signature rest =>
        cases hcheck : Script.checkSignature setting.message signature key with
        | error fault =>
            rw [hcheck] at heffect
            cases heffect
        | ok valid =>
            rw [hcheck] at heffect
            cases heffect
            exact .push _ _ _ _
      next =>
        cases heffect
        exact .abort _ _

theorem Unary.effect_allowed (setting : Setting) (op : Unary) (operand : UInt8) (stack : Stack) :
    Effect.Allowed setting (.unary op operand) (op.effect setting.limits operand stack) := by
  cases op with
  | jump => exact .jump _ rfl
  | jumpIfTrue | jumpIfFalse =>
      cases stack with
      | nil => exact .abort _ _
      | cons x rest =>
          simp only [Unary.effect, jumpWhen]
          split
          · exact .jump _ rfl
          · exact .next _
  | push => exact .push _ _ _ _
  | copy =>
      simp only [Unary.effect]
      split
      · exact .push _ _ _ _
      · exact .abort _ _
  | drop =>
      simp only [Unary.effect]
      split
      · exact .next _
      · exact .abort _ _

/-- Only `success` unlocks, only `burn` burns, and only while burning; jumps go as far as the
operand says. -/
theorem Instruction.effect_allowed {setting : Setting} {stack : Stack} {instruction : Instruction}
    {effect : Effect} (heffect : instruction.effect setting stack = .ok effect) :
    Effect.Allowed setting instruction effect := by
  cases instruction with
  | plain op => exact Plain.effect_allowed heffect
  | unary op operand =>
      cases heffect
      exact Unary.effect_allowed _ _ _ _
  | pushBytes data =>
      cases heffect
      exact .push _ _ _ _

/-! ## How a run can end -/

/-- A run that burns has come to a burn instruction while burning. -/
theorem mem_of_run_burnt {setting : Setting} {program : List Instruction} {steps : Nat}
    {stack : Stack} {halt : Halt} (hrun : run setting steps stack program = .ok halt)
    (hend : halt.ending = .burnt) :
    .plain .burn ∈ program ∧ setting.burn = true := by
  -- The induction follows the run, whose jumps drop instructions from the front.
  fun_induction run setting steps stack program with
  | case1 steps stack | case2 steps stack instruction rest hlimit =>
      cases hrun
      cases hend
  | case3 => cases hrun
  | case4 steps stack instruction rest hsteps later heffect ih =>
      exact ⟨List.mem_cons_of_mem _ (ih hrun).1, (ih hrun).2⟩
  | case5 steps stack instruction rest hsteps op distance later heffect hle ih =>
      exact ⟨List.mem_cons_of_mem _ (List.mem_of_mem_drop (ih hrun).1), (ih hrun).2⟩
  | case6 =>
      cases hrun
      cases hend
  | case7 steps stack instruction rest hsteps ending later heffect =>
      cases hrun
      cases hend
      cases Instruction.effect_allowed heffect with
      | burnt _ hburn => exact ⟨List.mem_cons_self, hburn⟩

/-- A program whose last instruction burns gives up while not burning, when nothing before it
unlocks and its jumps lead out of it. -/
theorem aborted_of_run_concat_burn {setting : Setting} (hburn : setting.burn = false)
    {body : List Instruction} (hsuccess : .plain .success ∉ body)
    (hjump : ∀ op operand, .unary op operand ∈ body → op.isJump = true →
      body.length < operand.toNat)
    {steps : Nat} {stack : Stack} {halt : Halt}
    (hrun : run setting steps stack (body ++ [.plain .burn]) = .ok halt) :
    ∃ refusal, halt.ending = .aborted refusal := by
  induction body generalizing steps stack with
  | nil =>
      have heffect : (Instruction.plain .burn).effect setting stack =
          .ok (abort .burnForbidden stack) := by
        simp [Instruction.effect, Plain.effect, hburn]
      have haborts : Aborts (run setting steps stack [.plain .burn]) := run_aborts heffect
      obtain ⟨refusal, steps', stack', habort⟩ := haborts
      rw [List.nil_append, habort] at hrun
      cases hrun
      exact ⟨refusal, rfl⟩
  | cons instruction body ih =>
      rw [List.cons_append] at hrun
      rcases Nat.lt_or_ge steps setting.limits.maxSteps with hsteps | hlimit
      · cases heffect : instruction.effect setting stack with
        | error fault =>
            rw [run_fault hsteps heffect] at hrun
            cases hrun
        | ok effect =>
            cases Instruction.effect_allowed heffect with
            | next later =>
                rw [run_next hsteps heffect] at hrun
                refine ih (fun hmem => hsuccess (List.mem_cons_of_mem _ hmem)) ?_ hrun
                intro op operand hmem hop
                have hfar := hjump op operand (List.mem_cons_of_mem _ hmem) hop
                exact Nat.lt_of_succ_lt hfar
            | @jump op operand later hop =>
                have hfar := hjump op operand List.mem_cons_self hop
                rw [run_jump hsteps heffect, if_neg (by simp at hfar ⊢; omega)] at hrun
                cases hrun
                exact ⟨_, rfl⟩
            | abort refusal later =>
                rw [run_stop hsteps heffect] at hrun
                cases hrun
                exact ⟨refusal, rfl⟩
            | unlocked => exact absurd List.mem_cons_self hsuccess
            | burnt _ hburn' =>
                rw [hburn] at hburn'
                cases hburn'
      · obtain ⟨refusal, steps', stack', habort⟩ := run_aborts_of_limit hlimit
        rw [habort] at hrun
        cases hrun
        exact ⟨refusal, rfl⟩

end ShardLedger.Script
