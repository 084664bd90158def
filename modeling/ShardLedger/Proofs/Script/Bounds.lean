import ShardLedger.Proofs.Fault
import ShardLedger.Proofs.Script.Depth
import ShardLedger.Proofs.Script.Execution
import ShardLedger.Proofs.Script.Progress

/-!
# Evaluations are bounded

A run only moves forward, so it begins each instruction at most once.  The step limit
stops it at the first instruction above the limit, and no push takes the stack above its
limit.  An execution consists of two such runs with the parameters pushed in between, and
keeps the same bounds.
-/

namespace ShardLedger.Script

/-! ## One run -/

section

variable {setting : Setting} {p q : Progress}

theorem Step.length_stack_le (hstep : Step setting p q)
    (hstack : p.stack.length ≤ setting.limits.maxStack) :
    q.stack.length ≤ setting.limits.maxStack := by
  cases hstep with
  | next _ heffect => exact Instruction.length_stack_effect_le heffect hstack
  | jump _ heffect _ => exact Instruction.length_stack_effect_le heffect hstack

theorem length_stack_le_of_reaches (hreaches : Relation.ReflTransGen (Step setting) p q)
    (hstack : p.stack.length ≤ setting.limits.maxStack) :
    q.stack.length ≤ setting.limits.maxStack := by
  induction hreaches with
  | refl => exact hstack
  | tail _ hstep ih => exact hstep.length_stack_le ih

/-- Where a run of a program has come to, it keeps to the limits and only moves forward. -/
structure Progress.Forward (setting : Setting) (program : List Instruction) (p : Progress) :
    Prop where
  /-- The instructions to come are those of the program from the counter on. -/
  ahead : p.program = program.drop (p.counter program)
  counter_le : p.counter program ≤ program.length
  stack_le : p.stack.length ≤ setting.limits.maxStack
  /-- Whatever comes later has a higher counter, so that no instruction is begun twice. -/
  once : ∀ q, Relation.TransGen (Step setting) p q → p.counter program < q.counter program
  /-- A jump leads to an instruction behind or to the end of the program, or it breaks off. -/
  lands : ∀ instruction rest op distance later, p.program = instruction :: rest →
    p.steps < setting.limits.maxSteps →
    instruction.effect setting p.stack = .ok (.jump op distance later) →
      (p.counter program + 1 + distance ≤ program.length ∧
        Step setting p
          ⟨p.steps + 1, later, program.drop (p.counter program + 1 + distance)⟩) ∨
      (program.length < p.counter program + 1 + distance ∧
        p.run setting = .ok ⟨.aborted (.jumpedOut op), p.steps + 1, later⟩)
  /-- What pops before it pushes does not overflow the stack. -/
  fits : ∀ instruction rest later, p.program = instruction :: rest →
    instruction.grows = false →
      instruction.effect setting p.stack ≠ .ok (abort .stackOverflow later)

theorem Progress.forward {program : List Instruction} (hsuffix : p.program <:+ program)
    (hstack : p.stack.length ≤ setting.limits.maxStack) : p.Forward setting program where
  ahead := Progress.program_eq_drop_counter hsuffix
  counter_le := Nat.sub_le _ _
  stack_le := hstack
  once q hlater := counter_lt_of_transGen hsuffix hlater
  lands instruction rest op distance later hprogram hsteps heffect := by
    have hlength := Progress.counter_add_length hsuffix
    rw [hprogram, List.length_cons] at hlength
    have hahead : program.drop (p.counter program + 1 + distance) = rest.drop distance := by
      rw [Nat.add_assoc, ← List.drop_drop, ← Progress.program_eq_drop_counter hsuffix, hprogram,
        Nat.add_comm, List.drop_succ_cons]
    obtain ⟨steps, stack, _⟩ := p
    cases hprogram
    rcases Nat.lt_or_ge rest.length distance with hfar | hnear
    · right
      refine ⟨by omega, ?_⟩
      exact (run_jump hsteps heffect).trans (if_neg (Nat.not_le.mpr hfar))
    · left
      refine ⟨by omega, ?_⟩
      rw [hahead]
      exact .jump hsteps heffect hnear
  fits instruction rest later _ hgrows heffect := by
    obtain ⟨-, hgrows', -⟩ := Instruction.overflow_of_isLimit heffect rfl hstack
    rw [hgrows] at hgrows'
    cases hgrows'

/-- The end of a run: how many steps may have been begun, and whether the step limit ended it. -/
structure Halt.Bounded (setting : Setting) (begun : Nat) (halt : Halt) : Prop where
  steps_le : halt.steps ≤ begun
  stack_le : halt.stack.length ≤ setting.limits.maxStack
  limit_cases : halt.ending = .aborted .stepLimit ∧ halt.steps = setting.limits.maxSteps + 1 ∨
    halt.ending ≠ .aborted .stepLimit ∧ halt.steps ≤ setting.limits.maxSteps

theorem Halt.Bounded.mono {begun begun' : Nat} {halt : Halt} (hbounded : halt.Bounded setting begun)
    (hle : begun ≤ begun') : halt.Bounded setting begun' :=
  { hbounded with steps_le := Nat.le_trans hbounded.steps_le hle }

/-- A run begins each instruction at most once, and no more than one above the step limit. -/
theorem run_bounded {steps : Nat} {stack : Stack} {program : List Instruction} {halt : Halt}
    (hsteps : steps ≤ setting.limits.maxSteps) (hstack : stack.length ≤ setting.limits.maxStack)
    (hrun : run setting steps stack program = .ok halt) :
    halt.Bounded setting (steps + program.length) := by
  have hbegun : ∀ (instruction : Instruction) (rest : List Instruction) (steps : Nat),
      steps + 1 ≤ steps + (instruction :: rest).length :=
    fun _ _ _ => Nat.add_le_add_left (Nat.succ_le_succ (Nat.zero_le _)) _
  -- The induction follows the run; each instruction takes at least itself off the program.
  fun_induction run setting steps stack program with
  | case1 steps stack =>
      cases hrun
      exact ⟨Nat.le_refl _, hstack, Or.inr ⟨by rintro ⟨⟩, hsteps⟩⟩
  | case2 steps stack instruction rest hlimit =>
      cases hrun
      have hreached : steps = setting.limits.maxSteps := Nat.le_antisymm hsteps hlimit
      exact ⟨hbegun _ _ _, hstack, Or.inl ⟨rfl, congrArg (· + 1) hreached⟩⟩
  | case3 => cases hrun
  | case4 steps stack instruction rest hlimit later heffect ih =>
      have hlater := Instruction.length_stack_effect_le heffect hstack
      refine (ih (Nat.lt_of_not_le hlimit) hlater hrun).mono ?_
      rw [List.length_cons]
      omega
  | case5 steps stack instruction rest hlimit op distance later heffect hdistance ih =>
      have hlater := Instruction.length_stack_effect_le heffect hstack
      refine (ih (Nat.lt_of_not_le hlimit) hlater hrun).mono ?_
      rw [List.length_drop, List.length_cons]
      omega
  | case6 steps stack instruction rest hlimit op distance later heffect hdistance =>
      cases hrun
      have hlater := Instruction.length_stack_effect_le heffect hstack
      exact ⟨hbegun _ _ _, hlater, Or.inr ⟨by rintro ⟨⟩, Nat.lt_of_not_le hlimit⟩⟩
  | case7 steps stack instruction rest hlimit ending later heffect =>
      cases hrun
      have hlater := Instruction.length_stack_effect_le heffect hstack
      refine ⟨hbegun _ _ _, hlater, Or.inr ⟨?_, Nat.lt_of_not_le hlimit⟩⟩
      rintro rfl
      obtain ⟨hoverflow, -⟩ := Instruction.overflow_of_isLimit heffect rfl hstack
      cases hoverflow

end

/-! ## Two runs with parameters in between -/

/-- The stacks that an execution of a pair of scripts goes through. -/
inductive StackDuring (setting : Setting) (first : List Instruction) (parameters : List Bytes)
    (second : List Instruction) : Stack → Prop
  | unlocking {p : Progress} (hreaches : Relation.ReflTransGen (Step setting) ⟨0, [], first⟩ p) :
      StackDuring setting first parameters second p.stack
  | unlocked {halt : Halt} (hfirst : run setting 0 [] first = .ok halt) :
      StackDuring setting first parameters second halt.stack
  | pushing {halt : Halt} {pushed rest : List Bytes} {stack : Stack}
      (hfirst : run setting 0 [] first = .ok halt) (hparameters : parameters = pushed ++ rest)
      (hpushed : pushAll? setting.limits pushed halt.stack = some stack) :
      StackDuring setting first parameters second stack
  | locking {halt : Halt} {stack : Stack} {p : Progress}
      (hfirst : run setting 0 [] first = .ok halt)
      (hpushed : pushAll? setting.limits parameters halt.stack = some stack)
      (hreaches : Relation.ReflTransGen (Step setting) ⟨halt.steps, stack, second⟩ p) :
      StackDuring setting first parameters second p.stack
  | ended {halt : Halt} (hpair : runPair setting first parameters second = .ok halt) :
      StackDuring setting first parameters second halt.stack

section

variable {setting : Setting} {first second : List Instruction} {parameters : List Bytes}

theorem run_unlock_bounded {halt : Halt} (hfirst : run setting 0 [] first = .ok halt) :
    halt.Bounded setting first.length := by
  have hbounded := run_bounded (Nat.zero_le _) (Nat.zero_le _) hfirst
  rwa [Nat.zero_add] at hbounded

theorem length_le_of_pushAll? {items : List Bytes} {stack later : Stack}
    (hstack : stack.length ≤ setting.limits.maxStack)
    (hpushed : pushAll? setting.limits items stack = some later) :
    later.length ≤ setting.limits.maxStack := by
  obtain ⟨hroom, rfl⟩ := (pushAll?_eq_some_iff hstack).mp hpushed
  rw [List.length_append, List.length_reverse]
  omega

theorem runPair_bounded {halt : Halt}
    (hpair : runPair setting first parameters second = .ok halt) :
    halt.Bounded setting (first.length + second.length) := by
  rcases runPair_cases setting first parameters second with
    ⟨fault, -, hresult⟩ | ⟨middle, hfirst, hways⟩
  · rw [hresult] at hpair
    cases hpair
  · have hmiddle := run_unlock_bounded hfirst
    rcases hways with ⟨-, hresult⟩ | ⟨hgoes, hways⟩
    · rw [hresult] at hpair
      cases hpair
      exact hmiddle.mono (Nat.le_add_right _ _)
    · have hsteps := (hmiddle.limit_cases.resolve_left fun hlimit => hgoes _ hlimit.1).2
      rcases hways with ⟨-, hresult⟩ | ⟨stack, hpushed, hresult⟩
      · rw [hresult] at hpair
        cases hpair
        exact ⟨Nat.le_trans hmiddle.steps_le (Nat.le_add_right _ _), hmiddle.stack_le,
          Or.inr ⟨nofun, hsteps⟩⟩
      · have hstack := length_le_of_pushAll? hmiddle.stack_le hpushed
        refine (run_bounded hsteps hstack (hresult.symm.trans hpair)).mono ?_
        exact Nat.add_le_add_right hmiddle.steps_le _

theorem StackDuring.length_le {stack : Stack}
    (hduring : StackDuring setting first parameters second stack) :
    stack.length ≤ setting.limits.maxStack := by
  cases hduring with
  | unlocking hreaches => exact length_stack_le_of_reaches hreaches (Nat.zero_le _)
  | unlocked hfirst => exact (run_unlock_bounded hfirst).stack_le
  | pushing hfirst _ hpushed =>
      exact length_le_of_pushAll? (run_unlock_bounded hfirst).stack_le hpushed
  | locking hfirst hpushed hreaches =>
      apply length_stack_le_of_reaches hreaches
      exact length_le_of_pushAll? (run_unlock_bounded hfirst).stack_le hpushed
  | ended hpair => exact (runPair_bounded hpair).stack_le

end

/-! ## Executions -/

theorem prepare_eq_error_cases {limits : Limits} {unlock lock : Bytes} {refusal : Refusal}
    (hprepare : prepare limits unlock lock = .error refusal) :
    (∃ role, refusal = .scriptTooLong role limits.maxLength) ∨
      (∃ flaw, refusal = .malformed flaw) ∨ refusal = .notPushOnly := by
  unfold prepare at hprepare
  split at hprepare
  next => exact Or.inl ⟨.unlock, (Except.error.inj hprepare).symm⟩
  next =>
    split at hprepare
    next => exact Or.inl ⟨.lock, (Except.error.inj hprepare).symm⟩
    next =>
      split at hprepare
      next flaw _ => exact Or.inr (Or.inl ⟨flaw, (Except.error.inj hprepare).symm⟩)
      next =>
        split at hprepare
        next flaw _ => exact Or.inr (Or.inl ⟨flaw, (Except.error.inj hprepare).symm⟩)
        next =>
          split at hprepare
          next => cases hprepare
          next => exact Or.inr (Or.inr (Except.error.inj hprepare).symm)

section

variable {refusal : Refusal}

theorem Halt.settled_eq_aborted_iff (hlimit : refusal.isLimit = true) {halt : Halt} :
    halt.settled = .aborted refusal ↔ halt.ending = .aborted refusal := by
  have hother : Ending.aborted .noTrueValue ≠ .aborted refusal := by
    rintro ⟨⟩
    cases hlimit
  cases hending : halt.ending with
  | unlocked | burnt | aborted => rw [Halt.settled, hending]
  | finished =>
      simp only [Halt.settled, hending, reduceCtorEq, iff_false]
      unfold finalCheck
      split
      · split
        · nofun
        · exact hother
      · exact hother

theorem verdict_eq_refused_iff (hlimit : refusal.isLimit = true) {burn : Bool} {ending : Ending} :
    verdict burn ending = .refused refusal ↔ ending = .aborted refusal := by
  have hother : Verdict.refused .notBurnt ≠ .refused refusal := by
    rintro ⟨⟩
    cases hlimit
  cases ending with
  | burnt => simp [verdict]
  | aborted other => simp [verdict]
  | unlocked | finished => cases burn <;> simp [verdict, hother]

/-- A limit refuses an execution that has started exactly when it has ended one of the runs. -/
theorem Halt.outcome_refused_iff (hlimit : refusal.isLimit = true) {setting : Setting}
    {halt : Halt} :
    (halt.outcome setting).verdict = .refused refusal ↔ halt.ending = .aborted refusal := by
  rw [Halt.outcome, verdict_eq_refused_iff hlimit, Halt.settled_eq_aborted_iff hlimit]

end

/-- The number of instructions of a script; a malformed one has none. -/
def instructionCount (script : Bytes) : Nat :=
  match decode script with
  | .ok program => program.length
  | .error _ => 0

theorem instructionCount_eq {script : Bytes} {program : List Instruction}
    (hdecode : decode script = .ok program) : instructionCount script = program.length := by
  rw [instructionCount, hdecode]

section

variable {setting : Setting} {unlock lock : Bytes} {parameters : List Bytes} {outcome : Outcome}

theorem steps_le_of_execute (hexecute : execute setting unlock parameters lock = .ok outcome) :
    outcome.steps ≤
      min (setting.limits.maxSteps + 1) (instructionCount unlock + instructionCount lock) := by
  rcases execute_eq_ok_cases hexecute with
    ⟨refusal, -, rfl⟩ | ⟨first, second, halt, hprepare, hpair, rfl⟩
  · exact Nat.zero_le _
  · obtain ⟨-, -, hfirst, hsecond, -⟩ := prepare_eq_ok_iff.mp hprepare
    have hbounded := runPair_bounded hpair
    rw [instructionCount_eq hfirst, instructionCount_eq hsecond]
    refine Nat.le_min.mpr ⟨?_, hbounded.steps_le⟩
    rcases hbounded.limit_cases with ⟨-, hsteps⟩ | ⟨-, hsteps⟩
    · exact Nat.le_of_eq hsteps
    · exact Nat.le_succ_of_le hsteps

theorem steps_eq_of_stepLimit (hexecute : execute setting unlock parameters lock = .ok outcome)
    (hlimit : outcome.verdict = .refused .stepLimit) :
    outcome.steps = setting.limits.maxSteps + 1 := by
  rcases execute_eq_ok_cases hexecute with
    ⟨refusal, hprepare, rfl⟩ | ⟨first, second, halt, -, hpair, rfl⟩
  · cases hlimit
    rcases prepare_eq_error_cases hprepare with ⟨_, hrefusal⟩ | ⟨_, hrefusal⟩ | hrefusal <;>
      cases hrefusal
  · rw [Halt.outcome_refused_iff rfl] at hlimit
    exact ((runPair_bounded hpair).limit_cases.resolve_right fun hother => hother.1 hlimit).2

end

/-! ## The text of the step limit -/

theorem append_ne_of_take_ne {front text : String} {n : Nat} (hfront : n ≤ front.toList.length)
    (htake : front.toList.take n ≠ text.toList.take n) (rest : String) : front ++ rest ≠ text := by
  rintro rfl
  rw [String.toList_append, List.take_append_of_le_length hfront] at htake
  exact htake rfl

theorem Flaw.message_ne_stepLimit (flaw : Flaw) : flaw.message ≠ "step limit exceeded" := by
  cases flaw with
  | missingLength => decide
  | missingOperand op => cases op <;> decide
  | unknownCode code offset =>
      change "unknown opcode " ++ _ ++ _ ++ _ ≠ _
      rw [String.append_assoc, String.append_assoc]
      exact append_ne_of_take_ne (n := 1) (by decide) (by decide) _
  | missingData wanted remaining =>
      change "PUSHB wants " ++ _ ++ _ ++ _ ++ _ ≠ _
      rw [String.append_assoc, String.append_assoc, String.append_assoc]
      exact append_ne_of_take_ne (n := 1) (by decide) (by decide) _

theorem Refusal.eq_stepLimit_of_message {refusal : Refusal}
    (hmessage : refusal.message = "step limit exceeded") : refusal = .stepLimit := by
  refine Decidable.byContradiction fun hother => absurd hmessage ?_
  cases refusal with
  | stepLimit => exact absurd rfl hother
  | malformed flaw => exact flaw.message_ne_stepLimit
  | jumpedOut op => cases op <;> decide
  | scriptTooLong role limit =>
      change role.name ++ _ ++ _ ++ _ ≠ _
      rw [String.append_assoc, String.append_assoc]
      cases role with
      | unlock => exact append_ne_of_take_ne (n := 1) (by decide) (by decide) _
      | lock => exact append_ne_of_take_ne (n := 1) (by decide) (by decide) _
  | stackUnderflowAt depth =>
      change "stack underflow reading depth " ++ _ ≠ _
      exact append_ne_of_take_ne (n := 3) (by decide) (by decide) _
  | indexOutOfRange index =>
      change "input index " ++ _ ++ _ ≠ _
      rw [String.append_assoc]
      exact append_ne_of_take_ne (n := 1) (by decide) (by decide) _
  | parameterCount count =>
      change "expected exactly 1 parameter, got " ++ _ ≠ _
      exact append_ne_of_take_ne (n := 1) (by decide) (by decide) _
  | stackOverflow | stackUnderflow | burnForbidden | failExecuted | notPushOnly | noTrueValue
  | notBurnt | noLockData | lockScriptMismatch => decide

theorem Outcome.verdict_of_reason {outcome : Outcome}
    (hreason : outcome.reason = "step limit exceeded") : outcome.verdict = .refused .stepLimit := by
  unfold Outcome.reason at hreason
  split at hreason
  next refusal hverdict =>
    rw [hverdict, Refusal.eq_stepLimit_of_message hreason]
  next => exact absurd hreason (by decide)

/-! ## All bounds -/

/-- Runs only move forward and keep the depth of the stack; executions begin each instruction at
most once and stop at the step limit, and keep the depth of the stack from beginning to end.  Inside
an instruction the stack only grows by pushes, each of which keeps the limit by itself. -/
theorem evaluation_bounded (setting : Setting) :
    (∀ steps stack program p, stack.length ≤ setting.limits.maxStack →
      Relation.ReflTransGen (Step setting) ⟨steps, stack, program⟩ p →
        p.run setting = run setting steps stack program ∧ p.Forward setting program) ∧
    (∀ unlock parameters lock outcome,
      execute setting unlock parameters lock = .ok outcome →
        outcome.steps ≤ min (setting.limits.maxSteps + 1)
          (instructionCount unlock + instructionCount lock) ∧
        (outcome.reason = "step limit exceeded" →
          outcome.steps = setting.limits.maxSteps + 1)) ∧
    (∀ first parameters second stack, StackDuring setting first parameters second stack →
      stack.length ≤ setting.limits.maxStack) ∧
    ∀ item stack later, push setting.limits item stack = .next later →
      later.length ≤ setting.limits.maxStack := by
  refine ⟨?_, ?_, fun _ _ _ _ => StackDuring.length_le, fun _ _ _ => length_le_of_push⟩
  · intro steps stack program p hstack hreaches
    refine ⟨(run_eq_of_reaches hreaches).symm, ?_⟩
    exact Progress.forward (isSuffix_of_reaches hreaches)
      (length_stack_le_of_reaches hreaches hstack)
  · intro unlock parameters lock outcome hexecute
    refine ⟨steps_le_of_execute hexecute, fun hreason => ?_⟩
    exact steps_eq_of_stepLimit hexecute (Outcome.verdict_of_reason hreason)

/-- Little room: three instructions may be begun, and two items fit on the stack. -/
def narrow : Setting :=
  ⟨[], false, { maxLength := 8, maxSteps := 3, maxStack := 2, maxStack_pos := Nat.two_pos }⟩

/-- Two pushed items are exchanged, which needs both places of the stack, and the next instruction
is one too many. -/
theorem evaluation_bounded_narrow :
    execute narrow [0x30, 1, 0x30, 2] [] [0x34, 0x00] = .ok ⟨.refused .stepLimit, 4⟩ ∧
      4 = narrow.limits.maxSteps + 1 ∧
      (⟨3, [[1], [2]], [.plain .nop]⟩ : Progress).Forward narrow [.plain .swap, .plain .nop] ∧
      StackDuring narrow [.unary .push 1, .unary .push 2] [] [.plain .swap, .plain .nop]
        [[2], [1]] ∧
      ([[2], [1]] : Stack).length ≤ narrow.limits.maxStack := by
  obtain ⟨hruns, hexecutions, hstacks, -⟩ := evaluation_bounded narrow
  have hexecute : execute narrow [0x30, 1, 0x30, 2] [] [0x34, 0x00] =
      .ok ⟨.refused .stepLimit, 4⟩ := by cbv
  have hfirst : run narrow 0 [] [.unary .push 1, .unary .push 2] =
      .ok ⟨.finished, 2, [[2], [1]]⟩ := by cbv
  have hstep : Step narrow ⟨2, [[2], [1]], [.plain .swap, .plain .nop]⟩
      ⟨3, [[1], [2]], [.plain .nop]⟩ := .next (by decide) rfl
  have hduring : StackDuring narrow [.unary .push 1, .unary .push 2] []
      [.plain .swap, .plain .nop] [[2], [1]] := .unlocked hfirst
  refine ⟨hexecute, (hexecutions _ _ _ _ hexecute).2 rfl, ?_, hduring, hstacks _ _ _ _ hduring⟩
  exact (hruns _ _ _ _ (by decide) (.single hstep)).2

end ShardLedger.Script
