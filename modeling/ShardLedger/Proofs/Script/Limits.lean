import Mathlib.Data.List.Basic
import ShardLedger.Proofs.Script.Bounds

/-!
# Wider limits

Limits only ever refuse.  Two runs of the same instructions whose limits differ stay
together until the narrower limits refuse something, and an execution that no limit has
refused comes to the very same outcome under all wider limits.
-/

namespace ShardLedger.Script

/-- Limits are at most as wide as others if none of the three is higher. -/
instance : LE Limits where
  le limits limits' := limits.maxLength ≤ limits'.maxLength ∧
    limits.maxSteps ≤ limits'.maxSteps ∧ limits.maxStack ≤ limits'.maxStack

/-- A limit has ended the run. -/
def HitsLimit (result : Except Fault Halt) : Prop :=
  ∃ halt refusal, result = .ok halt ∧ halt.ending = .aborted refusal ∧ refusal.isLimit = true

section

variable {message : Bytes} {burn : Bool} {limits limits' : Limits} {stack : Stack}

theorem Instruction.effect_of_le {instruction : Instruction} {result : Except Fault Effect}
    (hle : limits ≤ limits') (hstack : stack.length ≤ limits.maxStack)
    (heffect : instruction.effect ⟨message, burn, limits⟩ stack = result)
    (hfits : ∀ later, result ≠ .ok (abort .stackOverflow later)) :
    instruction.effect ⟨message, burn, limits'⟩ stack = result := by
  obtain ⟨-, -, hdepth⟩ := hle
  rcases instruction.steady_or_pushes message burn stack with
    ⟨steady, hsteady, -⟩ | ⟨-, item, hpush⟩
  · have hnarrow := (hsteady limits hstack).symm.trans heffect
    exact (hsteady limits' (Nat.le_trans hstack hdepth)).trans hnarrow
  · rw [hpush] at heffect ⊢
    rcases Nat.lt_or_ge stack.length limits.maxStack with hroom | hfull
    · rw [push_of_lt hroom] at heffect
      rw [push_of_lt (Nat.lt_of_lt_of_le hroom hdepth), heffect]
    · rw [push_of_full hfull] at heffect
      exact absurd heffect.symm (hfits stack)

/-- Under wider limits a run comes to the same end, unless the narrower ones have ended it. -/
theorem run_of_le (hle : limits ≤ limits') {steps : Nat} {program : List Instruction}
    (hstack : stack.length ≤ limits.maxStack) :
    HitsLimit (run ⟨message, burn, limits⟩ steps stack program) ∨
      run ⟨message, burn, limits'⟩ steps stack program =
        run ⟨message, burn, limits⟩ steps stack program := by
  have hfree : ∀ {steps}, ¬limits.maxSteps ≤ steps → steps < limits'.maxSteps :=
    fun hlimit => Nat.lt_of_lt_of_le (Nat.lt_of_not_le hlimit) hle.2.1
  -- The induction follows the run under the narrower limits.
  fun_induction run ⟨message, burn, limits⟩ steps stack program with
  | case1 steps stack => exact Or.inr (run_nil _ steps stack)
  | case2 steps stack instruction rest hlimit => exact Or.inl ⟨_, _, rfl, rfl, rfl⟩
  | case3 steps stack instruction rest hlimit fault heffect =>
      have hsame := Instruction.effect_of_le hle hstack heffect (by rintro _ ⟨⟩)
      exact Or.inr (run_fault (hfree hlimit) hsame)
  | case4 steps stack instruction rest hlimit later heffect ih =>
      have hsame := Instruction.effect_of_le hle hstack heffect (by rintro _ ⟨⟩)
      rw [run_next (hfree hlimit) hsame]
      exact ih (Instruction.length_stack_effect_le heffect hstack)
  | case5 steps stack instruction rest hlimit op distance later heffect hdistance ih =>
      have hsame := Instruction.effect_of_le hle hstack heffect (by rintro _ ⟨⟩)
      rw [run_jump (hfree hlimit) hsame, if_pos hdistance]
      exact ih (Instruction.length_stack_effect_le heffect hstack)
  | case6 steps stack instruction rest hlimit op distance later heffect hdistance =>
      have hsame := Instruction.effect_of_le hle hstack heffect (by rintro _ ⟨⟩)
      rw [run_jump (hfree hlimit) hsame, if_neg hdistance]
      exact Or.inr rfl
  | case7 steps stack instruction rest hlimit ending later heffect =>
      by_cases hending : ending = .aborted .stackOverflow
      · exact Or.inl ⟨_, _, rfl, hending, rfl⟩
      · have hsame := Instruction.effect_of_le hle hstack heffect fun later' hoverflow => by
          cases hoverflow
          exact hending rfl
        exact Or.inr (run_stop (hfree hlimit) hsame)

/-! ## Executions -/

theorem pushAll?_of_le (hle : limits ≤ limits') {items : List Bytes} {later : Stack}
    (hstack : stack.length ≤ limits.maxStack)
    (hpushed : pushAll? limits items stack = some later) :
    pushAll? limits' items stack = some later := by
  obtain ⟨hroom, hlater⟩ := (pushAll?_eq_some_iff hstack).mp hpushed
  refine (pushAll?_eq_some_iff (Nat.le_trans hstack hle.2.2)).mpr ⟨?_, hlater⟩
  exact Nat.le_trans hroom hle.2.2

theorem runPair_of_le (hle : limits ≤ limits') (first second : List Instruction)
    (parameters : List Bytes) :
    HitsLimit (runPair ⟨message, burn, limits⟩ first parameters second) ∨
      runPair ⟨message, burn, limits'⟩ first parameters second =
        runPair ⟨message, burn, limits⟩ first parameters second := by
  have hunlock : HitsLimit (run ⟨message, burn, limits⟩ 0 [] first) ∨ _ :=
    run_of_le hle (Nat.zero_le _)
  rcases runPair_cases ⟨message, burn, limits⟩ first parameters second with
    ⟨fault, hfirst, hresult⟩ | ⟨middle, hfirst, hways⟩
  · rw [hfirst] at hunlock
    rcases hunlock with ⟨halt, _, hhalt, -⟩ | hsame
    · cases hhalt
    · exact Or.inr ((runPair_of_error hsame).trans hresult.symm)
  · rw [hfirst] at hunlock
    rcases hways with ⟨⟨refusal, haborted⟩, hresult⟩ | ⟨hgoes, hways⟩
    · rcases hunlock with ⟨_, limit, ⟨⟩, hending, hlimit⟩ | hsame
      · exact Or.inl ⟨middle, limit, hresult, hending, hlimit⟩
      · exact Or.inr ((runPair_of_aborted hsame haborted).trans hresult.symm)
    · have hsame := hunlock.resolve_left fun ⟨_, limit, hhalt, hending, _⟩ => by
        cases hhalt
        exact hgoes limit hending
      rcases hways with ⟨-, hresult⟩ | ⟨stack, hpushed, hresult⟩
      · exact Or.inl ⟨_, _, hresult, rfl, rfl⟩
      · have hmiddle := (run_unlock_bounded hfirst).stack_le
        rw [hresult, runPair_of_pushed hsame hgoes (pushAll?_of_le hle hmiddle hpushed)]
        exact run_of_le hle (length_le_of_pushAll? hmiddle hpushed)

theorem prepare_of_le (hle : limits ≤ limits') (unlock lock : Bytes) :
    (∃ role, prepare limits unlock lock = .error (.scriptTooLong role limits.maxLength)) ∨
      prepare limits' unlock lock = prepare limits unlock lock := by
  have hshort : ∀ {script : Bytes}, ¬limits.maxLength < script.length →
      ¬limits'.maxLength < script.length :=
    fun hfits hlong => hfits (Nat.lt_of_le_of_lt hle.1 hlong)
  by_cases hunlock : limits.maxLength < unlock.length
  · exact Or.inl ⟨.unlock, if_pos hunlock⟩
  by_cases hlock : limits.maxLength < lock.length
  · exact Or.inl ⟨.lock, (if_neg hunlock).trans (if_pos hlock)⟩
  · right
    rw [prepare, if_neg (hshort hunlock), if_neg (hshort hlock), prepare, if_neg hunlock,
      if_neg hlock]

/-- Under wider limits an execution answers the same, unless a limit has refused it. -/
theorem execute_eq_of_le (hle : limits ≤ limits') (unlock lock : Bytes)
    (parameters : List Bytes) :
    (∃ outcome refusal, execute ⟨message, burn, limits⟩ unlock parameters lock = .ok outcome ∧
      outcome.verdict = .refused refusal ∧ refusal.isLimit = true) ∨
      execute ⟨message, burn, limits'⟩ unlock parameters lock =
        execute ⟨message, burn, limits⟩ unlock parameters lock := by
  rcases prepare_of_le hle unlock lock with ⟨role, hlong⟩ | hprepare
  · exact Or.inl ⟨_, _, execute_of_prepare_error hlong, rfl, rfl⟩
  · cases hnarrow : prepare limits unlock lock with
    | error refusal =>
        right
        rw [execute_of_prepare_error (hprepare.trans hnarrow), execute_of_prepare_error hnarrow]
    | ok scripts =>
        obtain ⟨first, second⟩ := scripts
        rw [execute_of_prepare_ok hnarrow, execute_of_prepare_ok (hprepare.trans hnarrow)]
        have hpair : HitsLimit (runPair ⟨message, burn, limits⟩ first parameters second) ∨ _ :=
          runPair_of_le hle first second parameters
        rcases hpair with ⟨halt, refusal, hhalt, hending, hlimit⟩ | hsame
        · left
          rw [hhalt, map_ok]
          exact ⟨_, refusal, rfl, (Halt.outcome_refused_iff hlimit).mpr hending, hlimit⟩
        · right
          rw [hsame]
          rfl

end

/-- An execution that authorizes has the identical outcome under all wider limits, and so does every
other one that no limit has refused; one that breaks down does so under wider limits as well. -/
theorem limits_only_refuse (message : Bytes) (burn : Bool) (unlock : Bytes)
    (parameters : List Bytes) (lock : Bytes) (limits limits' : Limits) (hle : limits ≤ limits') :
    (∀ outcome, execute ⟨message, burn, limits⟩ unlock parameters lock = .ok outcome →
      outcome.ok = true →
        execute ⟨message, burn, limits'⟩ unlock parameters lock = .ok outcome) ∧
    (∀ outcome, execute ⟨message, burn, limits⟩ unlock parameters lock = .ok outcome →
      (∀ refusal, outcome.verdict = .refused refusal → refusal.isLimit = false) →
        execute ⟨message, burn, limits'⟩ unlock parameters lock = .ok outcome) ∧
    ∀ fault, execute ⟨message, burn, limits⟩ unlock parameters lock = .error fault →
      execute ⟨message, burn, limits'⟩ unlock parameters lock = .error fault := by
  have hunlimited : ∀ outcome,
      execute ⟨message, burn, limits⟩ unlock parameters lock = .ok outcome →
      (∀ refusal, outcome.verdict = .refused refusal → refusal.isLimit = false) →
        execute ⟨message, burn, limits'⟩ unlock parameters lock = .ok outcome := by
    intro outcome hexecute hother
    rcases execute_eq_of_le hle unlock lock parameters with
      ⟨_, refusal, hrefused, hverdict, hlimit⟩ | hsame
    · rw [hexecute] at hrefused
      cases hrefused
      rw [hother refusal hverdict] at hlimit
      cases hlimit
    · exact hsame.trans hexecute
  refine ⟨?_, hunlimited, ?_⟩
  · intro outcome hexecute hok
    refine hunlimited outcome hexecute fun refusal hverdict => ?_
    exact absurd hverdict (Outcome.ok_eq_true_iff.mp hok refusal)
  · intro fault hexecute
    rcases execute_eq_of_le hle unlock lock parameters with ⟨_, _, hrefused, -⟩ | hsame
    · rw [hexecute] at hrefused
      cases hrefused
    · exact hsame.trans hexecute

/-- An authorization and a refusal under little room are the same under the standard limits. -/
theorem limits_only_refuse_narrow :
    narrow.limits ≤ Limits.standard ∧
      execute ⟨[], false, narrow.limits⟩ [0x30, 1] [] [0x33] = .ok ⟨.unlocked, 2⟩ ∧
      execute ⟨[], false, .standard⟩ [0x30, 1] [] [0x33] = .ok ⟨.unlocked, 2⟩ ∧
      execute ⟨[], false, narrow.limits⟩ [0x30, 1] [] [0x03] = .ok ⟨.refused .failExecuted, 2⟩ ∧
      execute ⟨[], false, .standard⟩ [0x30, 1] [] [0x03] = .ok ⟨.refused .failExecuted, 2⟩ := by
  have hle : narrow.limits ≤ Limits.standard := ⟨by decide, by decide, by decide⟩
  have hunlocked : execute ⟨[], false, narrow.limits⟩ [0x30, 1] [] [0x33] =
      .ok ⟨.unlocked, 2⟩ := by cbv
  have hrefused : execute ⟨[], false, narrow.limits⟩ [0x30, 1] [] [0x03] =
      .ok ⟨.refused .failExecuted, 2⟩ := by cbv
  obtain ⟨hok, -, -⟩ := limits_only_refuse [] false [0x30, 1] [] [0x33] _ _ hle
  obtain ⟨-, hother, -⟩ := limits_only_refuse [] false [0x30, 1] [] [0x03] _ _ hle
  refine ⟨hle, hunlocked, hok _ hunlocked rfl, hrefused, hother _ hrefused ?_⟩
  rintro refusal ⟨⟩
  rfl

end ShardLedger.Script
