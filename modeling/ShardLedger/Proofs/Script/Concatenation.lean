import ShardLedger.Proofs.Script.Bounds

/-!
# One program instead of two

An execution runs two scripts and pushes the parameters in between.  It comes to the same
end as a single run of the instructions of the unlock script, of one push for each
parameter, and of the instructions of the lock script; only the pushes of the parameters
count as steps of the single run.
-/

namespace ShardLedger.Script

/-! ## Programs in front of others -/

/-- Whether an instruction never jumps. -/
def Instruction.isStraight : Instruction → Bool
  | unary op _ => !op.isJump
  | _ => true

theorem Instruction.isStraight_of_isPush {instruction : Instruction}
    (hpush : instruction.isPush = true) : instruction.isStraight = true := by
  cases instruction with
  | plain | pushBytes => rfl
  | unary op operand =>
      cases op with
      | push | copy | drop => rfl
      | jump | jumpIfTrue | jumpIfFalse => cases hpush

/-- Go on with another run where a run has finished. -/
def Halt.andThen (next : Nat → Stack → Except Fault Halt) (halt : Halt) : Except Fault Halt :=
  match halt.ending with
  | .finished => next halt.steps halt.stack
  | _ => .ok halt

section

variable {setting : Setting}

/-- Instructions that never jump run before the instructions behind them. -/
theorem run_append_of_straight {first : List Instruction}
    (hstraight : ∀ instruction ∈ first, instruction.isStraight = true) (steps : Nat)
    (stack : Stack) (rest : List Instruction) :
    run setting steps stack (first ++ rest) =
      run setting steps stack first >>=
        Halt.andThen fun steps stack => run setting steps stack rest := by
  -- A jump could lead behind `first`; without one, each instruction takes just itself off it.
  induction first generalizing steps stack with
  | nil => rw [List.nil_append, run_nil, ok_bind, Halt.andThen]
  | cons instruction first ih =>
      obtain ⟨hinstruction, hfirst⟩ := List.forall_mem_cons.mp hstraight
      rw [List.cons_append]
      rcases Nat.lt_or_ge steps setting.limits.maxSteps with hsteps | hlimit
      · cases heffect : instruction.effect setting stack with
        | error fault => rw [run_fault hsteps heffect, run_fault hsteps heffect, error_bind]
        | ok effect =>
            cases Instruction.effect_allowed heffect with
            | next later =>
                rw [run_next hsteps heffect, run_next hsteps heffect]
                exact ih hfirst (steps + 1) later
            | jump later hjump => simp [Instruction.isStraight, hjump] at hinstruction
            | abort | unlocked | burnt =>
                rw [run_stop hsteps heffect, run_stop hsteps heffect, ok_bind, Halt.andThen]
      · rw [run, if_pos hlimit, run, if_pos hlimit, ok_bind, Halt.andThen]

/-- As long as the step limit is far enough, a run does not depend on the steps made before. -/
theorem run_add_steps {steps : Nat} {stack : Stack} {program : List Instruction} (earlier : Nat)
    (hfree : steps + earlier + program.length ≤ setting.limits.maxSteps) :
    run setting (steps + earlier) stack program =
      (run setting steps stack program).map
        fun halt => { halt with steps := halt.steps + earlier } := by
  fun_induction run setting steps stack program with
  | case1 steps stack => exact run_nil setting (steps + earlier) stack
  | case2 steps stack instruction rest hlimit =>
      rw [List.length_cons] at hfree
      omega
  | case3 steps stack instruction rest hlimit fault heffect =>
      rw [List.length_cons] at hfree
      exact run_fault (by omega) heffect
  | case4 steps stack instruction rest hlimit later heffect ih =>
      rw [List.length_cons] at hfree
      rw [run_next (by omega) heffect, ← ih (by omega), Nat.add_right_comm]
  | case5 steps stack instruction rest hlimit op distance later heffect hdistance ih =>
      rw [List.length_cons] at hfree
      have hlater : steps + 1 + earlier + (rest.drop distance).length ≤
          setting.limits.maxSteps := by
        rw [List.length_drop]
        omega
      rw [run_jump (by omega) heffect, if_pos hdistance, ← ih hlater, Nat.add_right_comm]
  | case6 steps stack instruction rest hlimit op distance later heffect hdistance =>
      rw [List.length_cons] at hfree
      rw [run_jump (by omega) heffect, if_neg hdistance, map_ok, Nat.add_right_comm]
  | case7 steps stack instruction rest hlimit ending later heffect =>
      rw [List.length_cons] at hfree
      rw [run_stop (by omega) heffect, map_ok, Nat.add_right_comm]

/-! ## The pushes of the parameters -/

/-- How many pushes are begun when items are pushed in order; one that overflows is the last. -/
def pushesBegun (limits : Limits) : List Bytes → Stack → Nat
  | [], _ => 0
  | item :: rest, stack =>
    if limits.maxStack ≤ stack.length then 1 else pushesBegun limits rest (item :: stack) + 1

theorem pushesBegun_of_pushed {limits : Limits} {items : List Bytes} {stack later : Stack}
    (hpushed : pushAll? limits items stack = some later) :
    pushesBegun limits items stack = items.length := by
  induction items generalizing stack with
  | nil => rfl
  | cons item rest ih =>
      rw [pushAll?] at hpushed
      rw [pushesBegun]
      split at hpushed
      next => cases hpushed
      next hroom => rw [if_neg hroom, ih hpushed, List.length_cons]

theorem run_map_pushBytes_of_pushed {items : List Bytes} {steps : Nat} {stack later : Stack}
    (hsteps : steps + items.length ≤ setting.limits.maxSteps)
    (hpushed : pushAll? setting.limits items stack = some later) :
    run setting steps stack (items.map .pushBytes) =
      .ok ⟨.finished, steps + items.length, later⟩ := by
  induction items generalizing steps stack with
  | nil =>
      cases hpushed
      exact run_nil setting steps _
  | cons item rest ih =>
      rw [List.length_cons] at hsteps
      rw [pushAll?] at hpushed
      split at hpushed
      next => cases hpushed
      next hroom =>
        rw [List.map_cons, run_push (by omega) (Nat.lt_of_not_le hroom) rfl,
          ih (by omega) hpushed, List.length_cons, Nat.add_assoc, Nat.add_comm 1]

/-- Items that overflow the stack end a run that pushes them, at the last push begun. -/
theorem run_map_pushBytes_of_overflow {items : List Bytes} {steps : Nat} {stack : Stack}
    (hsteps : steps + items.length ≤ setting.limits.maxSteps)
    (hfull : pushAll? setting.limits items stack = none) :
    ∃ later, run setting steps stack (items.map .pushBytes) =
      .ok ⟨.aborted .stackOverflow, steps + pushesBegun setting.limits items stack, later⟩ := by
  induction items generalizing steps stack with
  | nil => cases hfull
  | cons item rest ih =>
      rw [List.length_cons] at hsteps
      rw [pushAll?] at hfull
      rw [List.map_cons, pushesBegun]
      split at hfull
      next hover =>
        have heffect : (Instruction.pushBytes item).effect setting stack =
            .ok (abort .stackOverflow stack) := congrArg _ (push_of_full hover)
        rw [if_pos hover, run_stop (by omega) heffect]
        exact ⟨stack, rfl⟩
      next hroom =>
        have hrest : steps + 1 + rest.length ≤ setting.limits.maxSteps := by omega
        obtain ⟨later, hlater⟩ := ih hrest hfull
        rw [if_neg hroom, run_push (by omega) (Nat.lt_of_not_le hroom) rfl, hlater,
          Nat.add_assoc, Nat.add_comm 1]
        exact ⟨later, rfl⟩

/-! ## The single program -/

/-- The instructions of two scripts with a push for each parameter in between. -/
def joined (first : List Instruction) (parameters : List Bytes) (second : List Instruction) :
    List Instruction :=
  first ++ (parameters.map .pushBytes ++ second)

/-- How many pushes of parameters an execution begins: none if its unlock script breaks off. -/
def parametersBegun (setting : Setting) (first : List Instruction) (parameters : List Bytes) :
    Nat :=
  match run setting 0 [] first with
  | .ok ⟨.finished, _, stack⟩ => pushesBegun setting.limits parameters stack
  | _ => 0

/-- What a run of the single program comes to, when the pushes of the parameters do not count. -/
def Halt.joinedOutcome (setting : Setting) (begun : Nat) (halt : Halt) : Outcome :=
  ⟨verdict setting.burn halt.settled, halt.steps - begun⟩

variable {first second : List Instruction} {parameters : List Bytes}

theorem isStraight_of_mem_map_pushBytes {instruction : Instruction}
    (hmem : instruction ∈ parameters.map .pushBytes) : instruction.isStraight = true := by
  obtain ⟨data, -, rfl⟩ := List.mem_map.mp hmem
  rfl

theorem run_joined_of_finished (hstraight : ∀ instruction ∈ first, instruction.isStraight = true)
    {steps : Nat} {stack : Stack} (hfirst : run setting 0 [] first = .ok ⟨.finished, steps, stack⟩) :
    run setting 0 [] (joined first parameters second) =
      run setting steps stack (parameters.map .pushBytes) >>=
        Halt.andThen fun steps stack => run setting steps stack second := by
  rw [joined, run_append_of_straight hstraight, hfirst, ok_bind]
  exact run_append_of_straight (fun _ => isStraight_of_mem_map_pushBytes) steps stack second

/-- An execution of pushes, parameters and a program comes to what the single program does, with
room for all steps. -/
theorem map_outcome_runPair (hpush : first.all Instruction.isPush = true)
    (hsteps : first.length + parameters.length + second.length ≤ setting.limits.maxSteps) :
    (runPair setting first parameters second).map (Halt.outcome setting) =
        (run setting 0 [] (joined first parameters second)).map
          (Halt.joinedOutcome setting (parametersBegun setting first parameters)) ∧
      ∀ halt, run setting 0 [] (joined first parameters second) = .ok halt →
        parametersBegun setting first parameters ≤ halt.steps := by
  obtain ⟨items, hpushes⟩ := all_isPush_iff_exists_pushes.mp hpush
  have hstraight : ∀ instruction ∈ first, instruction.isStraight = true :=
    fun i hi => Instruction.isStraight_of_isPush (List.all_eq_true.mp hpush i hi)
  have hlength := hpushes.length_eq
  have hcases : Aborts (run setting 0 [] first) ∨ _ := run_unlock_cases hpushes
  rcases hcases with ⟨refusal, steps, stack, hfirst⟩ | ⟨-, hroom⟩
  · -- The unlock script breaks off, and with it the single program.
    have hjoined : run setting 0 [] (joined first parameters second) =
        .ok ⟨.aborted refusal, steps, stack⟩ := by
      rw [joined, run_append_of_straight hstraight, hfirst, ok_bind, Halt.andThen]
    have hbegun : parametersBegun setting first parameters = 0 := by
      rw [parametersBegun, hfirst]
    rw [runPair_of_aborted hfirst rfl, hjoined, hbegun]
    exact ⟨rfl, fun _ _ => Nat.zero_le _⟩
  · have hfirst : run setting 0 [] first = .ok ⟨.finished, items.length, items.reverse⟩ :=
      run_unlock hpushes (by omega) hroom
    have hgoes : ∀ refusal, (⟨.finished, items.length, items.reverse⟩ : Halt).ending ≠
        .aborted refusal := nofun
    have hbegun : parametersBegun setting first parameters =
        pushesBegun setting.limits parameters items.reverse := by
      rw [parametersBegun, hfirst]
    have hfree : items.length + parameters.length + second.length ≤ setting.limits.maxSteps := by
      omega
    have hparameters := Nat.le_trans (Nat.le_add_right _ _) hfree
    rw [run_joined_of_finished hstraight hfirst, hbegun]
    cases hpushed : pushAll? setting.limits parameters items.reverse with
    | none =>
        obtain ⟨later, hlater⟩ := run_map_pushBytes_of_overflow hparameters hpushed
        rw [runPair_of_overflow hfirst hgoes hpushed, hlater, ok_bind, Halt.andThen, map_ok, map_ok,
          Halt.joinedOutcome, Nat.add_sub_cancel]
        refine ⟨rfl, ?_⟩
        rintro halt ⟨⟩
        exact Nat.le_add_left _ _
    | some stack =>
        -- Behind the parameters the single program has made a step more for each of them.
        rw [runPair_of_pushed hfirst hgoes hpushed, run_map_pushBytes_of_pushed hparameters hpushed,
          ok_bind, Halt.andThen, run_add_steps _ hfree, pushesBegun_of_pushed hpushed]
        cases run setting items.length stack second with
        | error fault => exact ⟨rfl, nofun⟩
        | ok halt =>
            rw [map_ok, map_ok, map_ok, Halt.joinedOutcome, Nat.add_sub_cancel]
            refine ⟨rfl, ?_⟩
            rintro halt ⟨⟩
            exact Nat.le_add_left _ _

/-! ## The items of the unlock script -/

theorem run_eq_of_pushes {first other : List Instruction} {items : List Bytes}
    (hfirst : Pushes first items) (hother : Pushes other items) (steps : Nat) (stack : Stack) :
    run setting steps stack first = run setting steps stack other := by
  induction items generalizing first other steps stack with
  | nil =>
      have hnil := List.eq_nil_of_length_eq_zero hfirst.length_eq
      have hnil' := List.eq_nil_of_length_eq_zero hother.length_eq
      rw [hnil, hnil']
  | cons item items ih =>
      match first, other with
      | [], _ => cases hfirst
      | _, [] => cases hother
      | i :: first, j :: other =>
          obtain ⟨_, _, ⟨⟩, hitem, hfirst'⟩ := pushes_cons_iff.mp hfirst
          obtain ⟨_, _, ⟨⟩, hitem', hother'⟩ := pushes_cons_iff.mp hother
          have heffect : ∀ instruction : Instruction, instruction.pushed? = some item →
              instruction.effect setting stack = .ok (push setting.limits item stack) :=
            fun _ => Instruction.effect_of_pushed
          have hrest : ∀ steps stack,
              run setting steps stack first = run setting steps stack other := ih hfirst' hother'
          rcases Nat.lt_or_ge steps setting.limits.maxSteps with hsteps | hlimit
          · rcases push_cases setting.limits item stack with hpush | hpush <;>
              rw [hpush] at heffect
            · rw [run_next hsteps (heffect i hitem), run_next hsteps (heffect j hitem'), hrest]
            · rw [run_stop hsteps (heffect i hitem), run_stop hsteps (heffect j hitem')]
          · rw [run, if_pos hlimit, run, if_pos hlimit]

end

/-- An execution with room for all steps comes to what the single program of its instructions and
parameters does, a step less for each parameter it has begun to push; and it depends on the unlock
script only through the items that this pushes. -/
theorem execute_eq_run_joined {setting : Setting} {unlock lock : Bytes}
    {first second : List Instruction} {parameters : List Bytes}
    (hunlock : decode unlock = .ok first) (hpush : first.all Instruction.isPush = true)
    (hlock : decode lock = .ok second) (hunlockFits : unlock.length ≤ setting.limits.maxLength)
    (hlockFits : lock.length ≤ setting.limits.maxLength)
    (hsteps : first.length + parameters.length + second.length ≤ setting.limits.maxSteps) :
    execute setting unlock parameters lock =
        (run setting 0 [] (joined first parameters second)).map
          (Halt.joinedOutcome setting (parametersBegun setting first parameters)) ∧
      (∀ halt, run setting 0 [] (joined first parameters second) = .ok halt →
        parametersBegun setting first parameters ≤ halt.steps) ∧
      ∀ other program, decode other = .ok program →
        program.map Instruction.pushed? = first.map Instruction.pushed? →
        other.length ≤ setting.limits.maxLength →
          execute setting other parameters lock = execute setting unlock parameters lock := by
  have hprepare := prepare_eq_ok_iff.mpr ⟨hunlockFits, hlockFits, hunlock, hlock, hpush⟩
  rw [execute_of_prepare_ok hprepare]
  obtain ⟨houtcome, hbegun⟩ := map_outcome_runPair hpush hsteps
  refine ⟨houtcome, hbegun, ?_⟩
  intro other program hother hitems hotherFits
  obtain ⟨items, hpushes⟩ := all_isPush_iff_exists_pushes.mp hpush
  have hpushes' : Pushes program items := hitems.trans hpushes
  have hpush' := all_isPush_iff_exists_pushes.mpr ⟨items, hpushes'⟩
  have hprepare' := prepare_eq_ok_iff.mpr ⟨hotherFits, hlockFits, hother, hlock, hpush'⟩
  rw [execute_of_prepare_ok hprepare', runPair, runPair, run_eq_of_pushes hpushes' hpushes]

/-- The second of two parameters overflows the stack, in an execution as in the single program; and
it makes no difference that another unlock script pushes the same item in another way. -/
theorem execute_eq_run_joined_narrow :
    run narrow 0 [] (joined [.unary .push 1] [[5], [6]] []) =
        .ok ⟨.aborted .stackOverflow, 3, [[5], [1]]⟩ ∧
      parametersBegun narrow [.unary .push 1] [[5], [6]] = 2 ∧
      execute narrow [0x30, 1] [[5], [6]] [] = .ok ⟨.refused .stackOverflow, 1⟩ ∧
      execute narrow [0x32, 1, 1] [[5], [6]] [] = .ok ⟨.refused .stackOverflow, 1⟩ := by
  have hunlock : decode [0x30, 1] = .ok [.unary .push 1] := by cbv
  have hother : decode [0x32, 1, 1] = .ok [.pushBytes [1]] := by cbv
  have hrun : run narrow 0 [] (joined [.unary .push 1] [[5], [6]] []) =
      .ok ⟨.aborted .stackOverflow, 3, [[5], [1]]⟩ := by cbv
  have hbegun : parametersBegun narrow [.unary .push 1] [[5], [6]] = 2 := by cbv
  have hlock : decode [] = .ok [] := by cbv
  have hsteps : [Instruction.unary .push 1].length + ([[5], [6]] : List Bytes).length + 0 ≤
      narrow.limits.maxSteps := by decide
  obtain ⟨hexecute, -, hitems⟩ :=
    execute_eq_run_joined hunlock rfl hlock (by decide) (by decide) hsteps
  rw [hrun, hbegun] at hexecute
  refine ⟨hrun, hbegun, hexecute, ?_⟩
  rw [hitems _ _ hother rfl (by decide), hexecute]
  rfl

end ShardLedger.Script
