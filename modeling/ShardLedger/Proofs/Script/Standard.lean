import ShardLedger.Proofs.Script.Decoding
import ShardLedger.Proofs.Script.Execution
import ShardLedger.Script.Standard

/-!
# Running the standard lock scripts

Both standard lock scripts start with the same five instructions, which find the
pushed public key under the parameter, compare its hash with the parameter, and
check the signature below it.  This file follows them on an arbitrary stack.  The
main statements say exactly which unlock scripts satisfy the two scripts, and that
neither script is of use where the other one belongs.
-/

namespace ShardLedger.Script

/-! ## The standard scripts as bytes -/

theorem decode_payToKey : decode payToKey = .ok payToKeyProgram :=
  decode_flatMap_spell (by simp [payToKeyProgram, Instruction.IsSpellable])

theorem decode_burnWithKey : decode burnWithKey = .ok burnWithKeyProgram :=
  decode_flatMap_spell (by simp [burnWithKeyProgram, payToKeyProgram, Instruction.IsSpellable])

/-! ## The effects of the instructions -/

section

variable (setting : Setting) (x y : Bytes) (rest : Stack)

theorem copy_one_effect :
    (Instruction.unary .copy 1).effect setting (x :: y :: rest) =
      .ok (push setting.limits y (x :: y :: rest)) := rfl

theorem blake256_effect :
    (Instruction.plain .blake256).effect setting (x :: rest) =
      .ok (push setting.limits (contentHash x).bytes rest) := rfl

theorem eq_effect :
    (Instruction.plain .eq).effect setting (x :: y :: rest) =
      .ok (push setting.limits (truthItem (x = y)) rest) := rfl

theorem jumpIfFalse_effect (b : Bool) (operand : UInt8) :
    (Instruction.unary .jumpIfFalse operand).effect setting (truthItem b :: rest) =
      .ok (if b then .next rest else .jump .jumpIfFalse operand.toNat rest) := by
  cases b <;> rfl

theorem checkSignature_effect_ok {valid : Bool}
    (hcheck : checkSignature setting.message y x = .ok valid) :
    (Instruction.plain .checkSignature).effect setting (x :: y :: rest) =
      .ok (push setting.limits (truthItem valid) rest) := by
  simp only [Instruction.effect, Plain.effect, hcheck]
  rfl

theorem checkSignature_effect_error {fault : Fault}
    (hcheck : checkSignature setting.message y x = .error fault) :
    (Instruction.plain .checkSignature).effect setting (x :: y :: rest) = .error fault := by
  simp only [Instruction.effect, Plain.effect, hcheck]
  rfl

end

/-! ## The common start of the standard scripts -/

section

variable {setting : Setting} {steps : Nat} {parameter : Bytes} {tail : List Instruction}

/-- With the public key and a signature under the parameter, the common start leaves the result of
the signature check to the rest of the script. -/
theorem run_payToKeyProgram_append {key signature : Bytes} {rest : Stack}
    (hhash : (contentHash key).bytes = parameter)
    (hsteps : steps + 5 ≤ setting.limits.maxSteps)
    (hstack : rest.length + 4 ≤ setting.limits.maxStack) :
    run setting steps (parameter :: key :: signature :: rest) (payToKeyProgram ++ tail) =
      match checkSignature setting.message signature key with
      | .error fault => .error fault
      | .ok valid => run setting (steps + 5) (truthItem valid :: rest) tail := by
  have hroom : rest.length < setting.limits.maxStack := by omega
  -- The first three instructions leave the outcome of the comparison on top of the key.
  refine (run_push (by omega) (by simp only [List.length_cons]; omega)
    (copy_one_effect setting parameter key (signature :: rest))).trans ?_
  refine (run_push (by omega) (by simp only [List.length_cons]; omega)
    (blake256_effect setting key (parameter :: key :: signature :: rest))).trans ?_
  refine (run_push (by omega) (by simp only [List.length_cons]; omega)
    (eq_effect setting (contentHash key).bytes parameter (key :: signature :: rest))).trans ?_
  rw [decide_eq_true hhash]
  refine (run_next (by omega)
    (jumpIfFalse_effect setting (key :: signature :: rest) true 0xff)).trans ?_
  cases hcheck : checkSignature setting.message signature key with
  | error fault =>
      exact run_fault (by omega) (checkSignature_effect_error setting key signature rest hcheck)
  | ok valid =>
      exact run_push (by omega) hroom
        (checkSignature_effect_ok setting key signature rest hcheck)

/-- Without a public key of the right hash, a signature below it, and room within the limits, the
common start breaks off. -/
theorem run_payToKeyProgram_cases (htail : tail.length < 254) (stack : Stack) :
    Aborts (run setting steps (parameter :: stack) (payToKeyProgram ++ tail)) ∨
      ∃ key signature rest, stack = key :: signature :: rest ∧
        (contentHash key).bytes = parameter ∧ steps + 5 ≤ setting.limits.maxSteps ∧
        rest.length + 4 ≤ setting.limits.maxStack := by
  rcases stack with - | ⟨key, stack⟩
  · exact Or.inl (run_aborts rfl)
  refine aborts_or_of_push (copy_one_effect setting parameter key stack) fun _ hroom => ?_
  refine aborts_or_of_push (blake256_effect setting key _) fun _ _ => ?_
  refine aborts_or_of_push (eq_effect setting _ parameter _) fun _ _ => ?_
  by_cases hhash : (contentHash key).bytes = parameter
  · rw [decide_eq_true hhash]
    refine aborts_or_of_next (jumpIfFalse_effect setting _ true 0xff) fun _ => ?_
    rcases stack with - | ⟨signature, rest⟩
    · exact Or.inl (run_aborts rfl)
    rcases Nat.lt_or_ge (steps + 4) setting.limits.maxSteps with hsteps | hlimit
    · exact Or.inr ⟨key, signature, rest, rfl, hhash, hsteps, hroom⟩
    · exact Or.inl (run_aborts_of_limit hlimit)
  · rw [decide_eq_false hhash]
    have hfar : (.plain .checkSignature :: tail).length < (0xff : UInt8).toNat := by
      rw [List.length_cons]
      exact Nat.succ_lt_succ htail
    exact Or.inl (run_aborts_of_jump hfar (jumpIfFalse_effect setting _ false 0xff))

end

/-! ## Whole executions -/

theorem checkSignature_eq_true_iff {message signature key : Bytes} :
    checkSignature message signature key = .ok true ↔
      ∃ (s : FixedBytes 65) (k : PublicKey), signature = s.bytes ∧ key = k.bytes ∧
        (Signature.ofFixedBytes s).recover message = .ok k := by
  constructor
  · intro hcheck
    unfold checkSignature at hcheck
    split at hcheck
    next s k hs hk =>
      rw [FixedBytes.ofBytes?_eq_some_iff] at hs hk
      refine ⟨s, k, hs, hk, ?_⟩
      split at hcheck
      next signer hrecover =>
        rw [hrecover]
        simpa using hcheck
      next => cases hcheck
      next => cases hcheck
    next => cases hcheck
  · rintro ⟨s, k, rfl, rfl, hrecover⟩
    simp only [checkSignature, FixedBytes.ofBytes?_bytes, hrecover, decide_true]

/-- An unlock script of pushes whose last two items are a signature and the public key that it
recovers to, whose hash is the parameter, within limits that leave `lockSteps` steps and two
places on the stack to the lock script. -/
structure ProvesKey (limits : Limits) (message : Bytes) (lockSteps : Nat)
    (lock parameter unlock : Bytes) (instructions : List Instruction) (earlier : List Bytes)
    (signature : FixedBytes 65) (key : PublicKey) : Prop where
  unlock_length : unlock.length ≤ limits.maxLength
  lock_length : lock.length ≤ limits.maxLength
  decodes : decode unlock = .ok instructions
  pushes : Pushes instructions (earlier ++ [signature.bytes, key.bytes])
  steps : instructions.length + lockSteps ≤ limits.maxSteps
  stack : instructions.length + 2 ≤ limits.maxStack
  key_hash : key.hash.bytes = parameter
  recovers : (Signature.ofFixedBytes signature).recover message = .ok key

/-- The unlock script proves that its maker holds the key whose hash is the parameter. -/
def KeyProof (limits : Limits) (message : Bytes) (lockSteps : Nat)
    (lock parameter unlock : Bytes) : Prop :=
  ∃ instructions earlier signature key,
    ProvesKey limits message lockSteps lock parameter unlock instructions earlier signature key

section

variable {setting : Setting} {first tail : List Instruction} {items : List Bytes}
  {parameter : Bytes}

theorem runPair_standard_cases (htail : tail.length < 254) (hpushes : Pushes first items) :
    Aborts (runPair setting first [parameter] (payToKeyProgram ++ tail)) ∨
      ∃ earlier signature key, items = earlier ++ [signature, key] ∧
        (contentHash key).bytes = parameter ∧ items.length + 5 ≤ setting.limits.maxSteps ∧
        items.length + 2 ≤ setting.limits.maxStack := by
  have hpair : Aborts (runPair setting first [parameter] (payToKeyProgram ++ tail)) ∨
      items.length ≤ setting.limits.maxSteps ∧
        items.length + [parameter].length ≤ setting.limits.maxStack := runPair_pushes_cases hpushes
  rcases hpair with habort | ⟨hsteps, hroom⟩
  · exact Or.inl habort
  rw [runPair_pushes hpushes hsteps hroom]
  rcases run_payToKeyProgram_cases htail items.reverse with
    habort | ⟨key, signature, rest, hitems, hhash, hsteps', hstack⟩
  · exact Or.inl habort
  have hitems' : items = rest.reverse ++ [signature, key] := by
    rw [← List.reverse_reverse items, hitems]
    simp
  refine Or.inr ⟨rest.reverse, signature, key, hitems', hhash, hsteps', ?_⟩
  rw [hitems']
  simpa using hstack

theorem runPair_standard {earlier : List Bytes} {signature key : Bytes}
    (hpushes : Pushes first (earlier ++ [signature, key]))
    (hhash : (contentHash key).bytes = parameter)
    (hsteps : first.length + 5 ≤ setting.limits.maxSteps)
    (hstack : first.length + 2 ≤ setting.limits.maxStack) :
    runPair setting first [parameter] (payToKeyProgram ++ tail) =
      match checkSignature setting.message signature key with
      | .error fault => .error fault
      | .ok valid => run setting (first.length + 5) (truthItem valid :: earlier.reverse) tail := by
  have hlength := hpushes.length_eq
  rw [hlength] at hsteps hstack
  have hroom : (earlier ++ [signature, key]).length + [parameter].length ≤
      setting.limits.maxStack := Nat.le_of_succ_le hstack
  rw [runPair_pushes hpushes (by omega) hroom, hlength]
  have hreverse : (earlier ++ [signature, key]).reverse = key :: signature :: earlier.reverse := by
    simp
  rw [hreverse]
  refine run_payToKeyProgram_append hhash hsteps ?_
  simpa using hstack

/-- A script with the common start ends with a verdict exactly on a proof of the key, when its rest
ends with that verdict exactly on a true item and within `extra` further steps. -/
theorem execute_standard_iff (tail : List Instruction) (extra : Nat) {lock unlock : Bytes}
    {v : Verdict} (htail : tail.length < 254) (hlock : decode lock = .ok (payToKeyProgram ++ tail))
    (hv : ∀ refusal, v ≠ .refused refusal)
    (hrest : ∀ steps stack valid, steps ≤ setting.limits.maxSteps →
      ((∃ halt, run setting steps (truthItem valid :: stack) tail = .ok halt ∧
          verdict setting.burn halt.settled = v) ↔
        valid = true ∧ steps + extra ≤ setting.limits.maxSteps)) :
    (∃ steps, execute setting unlock [parameter] lock = .ok ⟨v, steps⟩) ↔
      KeyProof setting.limits setting.message (5 + extra) lock parameter unlock := by
  constructor
  · rintro ⟨steps, hexecute⟩
    obtain ⟨first, second, halt, hprepare, hrun, hverdict, -⟩ := (execute_eq_ok_iff hv).mp hexecute
    obtain ⟨hunlockLength, hlockLength, hfirst, hsecond, hpush⟩ := prepare_eq_ok_iff.mp hprepare
    obtain rfl : payToKeyProgram ++ tail = second := Except.ok.inj (hlock.symm.trans hsecond)
    obtain ⟨items, hpushes⟩ := all_isPush_iff_exists_pushes.mp hpush
    have hlength := hpushes.length_eq
    have hpair : Aborts (runPair setting first [parameter] (payToKeyProgram ++ tail)) ∨ _ :=
      runPair_standard_cases htail hpushes
    rcases hpair with
      ⟨refusal, steps', stack, habort⟩ | ⟨earlier, signature, key, rfl, hhash, hsteps, hstack⟩
    · rw [habort] at hrun
      cases hrun
      exact absurd hverdict.symm (hv refusal)
    rw [← hlength] at hsteps hstack
    rw [runPair_standard hpushes hhash hsteps hstack] at hrun
    cases hcheck : checkSignature setting.message signature key with
    | error fault =>
        rw [hcheck] at hrun
        cases hrun
    | ok valid =>
        rw [hcheck] at hrun
        obtain ⟨hvalid, hextra⟩ := (hrest _ _ _ hsteps).mp ⟨halt, hrun, hverdict⟩
        rw [hvalid] at hcheck
        obtain ⟨s, k, rfl, rfl, hrecover⟩ := checkSignature_eq_true_iff.mp hcheck
        refine ⟨first, earlier, s, k, hunlockLength, hlockLength, hfirst, hpushes, ?_, hstack, hhash,
          hrecover⟩
        omega
  · rintro ⟨first, earlier, signature, key, hproof⟩
    have hall := all_isPush_iff_exists_pushes.mpr ⟨_, hproof.pushes⟩
    have hprepare := prepare_eq_ok_iff.mpr
      ⟨hproof.unlock_length, hproof.lock_length, hproof.decodes, hlock, hall⟩
    have hsteps := hproof.steps
    have hcheck := checkSignature_eq_true_iff.mpr ⟨signature, key, rfl, rfl, hproof.recovers⟩
    obtain ⟨halt, hrun, hverdict⟩ :=
      (hrest (first.length + 5) earlier.reverse true (by omega)).mpr ⟨rfl, by omega⟩
    refine ⟨halt.steps, (execute_eq_ok_iff hv).mpr
      ⟨first, _, halt, hprepare, ?_, hverdict, rfl⟩⟩
    rw [runPair_standard hproof.pushes hproof.key_hash (by omega) hproof.stack, hcheck]
    exact hrun

/-- The paying script unlocks exactly on a proof of the key. -/
theorem execute_payToKey_iff (hburn : setting.burn = false) {unlock : Bytes} :
    (∃ steps, execute setting unlock [parameter] payToKey = .ok ⟨.unlocked, steps⟩) ↔
      KeyProof setting.limits setting.message 5 payToKey parameter unlock := by
  refine execute_standard_iff [] 0 (by decide) decode_payToKey (by simp) ?_
  intro steps stack valid hsteps
  rw [run_nil, hburn]
  cases valid <;> simp [Halt.settled, finalCheck, verdict, hsteps]

theorem run_burnTail_cases {steps : Nat} {stack : Stack} {valid : Bool} :
    Aborts (run setting steps (truthItem valid :: stack)
      [.unary .jumpIfFalse 0xff, .plain .burn]) ∨
      valid = true ∧ steps + 2 ≤ setting.limits.maxSteps := by
  cases valid with
  | false => exact Or.inl (run_aborts_of_jump (by decide) (jumpIfFalse_effect _ _ false 0xff))
  | true =>
      refine aborts_or_of_next (jumpIfFalse_effect _ _ true 0xff) fun _ => ?_
      rcases Nat.lt_or_ge (steps + 1) setting.limits.maxSteps with hsteps | hlimit
      · exact Or.inr ⟨rfl, hsteps⟩
      · exact Or.inl (run_aborts_of_limit hlimit)

theorem run_burnTail (hburn : setting.burn = true) {steps : Nat} (stack : Stack)
    (hsteps : steps + 2 ≤ setting.limits.maxSteps) :
    run setting steps (truthItem true :: stack) [.unary .jumpIfFalse 0xff, .plain .burn] =
      .ok ⟨.burnt, steps + 2, stack⟩ := by
  have hburnt : (Instruction.plain .burn).effect setting stack = .ok (.stop .burnt stack) := by
    simp [Instruction.effect, Plain.effect, hburn]
  rw [run_next (by omega) (jumpIfFalse_effect setting stack true 0xff)]
  exact run_stop hsteps hburnt

/-- The burning script burns exactly on a proof of the key. -/
theorem execute_burnWithKey_iff (hburn : setting.burn = true) {unlock : Bytes} :
    (∃ steps, execute setting unlock [parameter] burnWithKey = .ok ⟨.burnt, steps⟩) ↔
      KeyProof setting.limits setting.message 7 burnWithKey parameter unlock := by
  refine execute_standard_iff [.unary .jumpIfFalse 0xff, .plain .burn] 2 (by decide)
    decode_burnWithKey (by simp) ?_
  intro steps stack valid _
  constructor
  · rintro ⟨halt, hrun, hverdict⟩
    have htail : Aborts (run setting steps (truthItem valid :: stack) _) ∨ _ := run_burnTail_cases
    rcases htail with ⟨refusal, steps', stack', habort⟩ | hvalid
    · rw [habort] at hrun
      cases hrun
      cases hverdict
    · exact hvalid
  · rintro ⟨rfl, hsteps⟩
    exact ⟨_, run_burnTail hburn stack hsteps, rfl⟩

/-! ## The scripts in each other's place -/

/-- An execution that authorizes has followed the lock script to an end that authorizes. -/
theorem exists_run_of_execute_ok {lock unlock : Bytes} {program : List Instruction}
    (hlock : decode lock = .ok program) {parameters : List Bytes} {outcome : Outcome}
    (hexecute : execute setting unlock parameters lock = .ok outcome) (hok : outcome.ok = true) :
    ∃ steps stack halt, run setting steps stack program = .ok halt ∧
      verdict setting.burn halt.settled = outcome.verdict := by
  have hv := Outcome.ok_eq_true_iff.mp hok
  obtain ⟨first, second, halt, hprepare, hpair, hverdict, -⟩ := (execute_eq_ok_iff hv).mp hexecute
  obtain ⟨-, -, -, hsecond, -⟩ := prepare_eq_ok_iff.mp hprepare
  obtain rfl : program = second := Except.ok.inj (hlock.symm.trans hsecond)
  rcases runPair_eq_ok_cases hpair with ⟨refusal, haborted⟩ | ⟨steps, stack, hrun⟩
  · rw [Halt.settled, haborted] at hverdict
    exact absurd hverdict.symm (hv refusal)
  · exact ⟨steps, stack, halt, hrun, hverdict⟩

/-- The paying script authorizes no burn, whatever it is given. -/
theorem execute_payToKey_not_ok (hburn : setting.burn = true) {unlock : Bytes}
    {parameters : List Bytes} {outcome : Outcome}
    (hexecute : execute setting unlock parameters payToKey = .ok outcome) :
    outcome.ok = false := by
  rw [← Bool.not_eq_true]
  intro hok
  obtain ⟨steps, stack, halt, hrun, hverdict⟩ :=
    exists_run_of_execute_ok decode_payToKey hexecute hok
  have hv := Outcome.ok_eq_true_iff.mp hok
  rw [← hverdict, hburn] at hv
  obtain ⟨hmem, -⟩ := mem_of_run_burnt hrun (Halt.ending_eq_burnt hv)
  simp [payToKeyProgram] at hmem

/-- The burning script releases nothing, whatever it is given. -/
theorem execute_burnWithKey_not_ok (hburn : setting.burn = false) {unlock : Bytes}
    {parameters : List Bytes} {outcome : Outcome}
    (hexecute : execute setting unlock parameters burnWithKey = .ok outcome) :
    outcome.ok = false := by
  rw [← Bool.not_eq_true]
  intro hok
  obtain ⟨steps, stack, halt, hrun, hverdict⟩ :=
    exists_run_of_execute_ok decode_burnWithKey hexecute hok
  have hprogram : burnWithKeyProgram =
      (payToKeyProgram ++ [Instruction.unary .jumpIfFalse 0xff]) ++ [.plain .burn] := rfl
  rw [hprogram] at hrun
  have hjump : ∀ op operand,
      .unary op operand ∈ payToKeyProgram ++ [Instruction.unary .jumpIfFalse 0xff] →
        op.isJump = true →
        (payToKeyProgram ++ [Instruction.unary .jumpIfFalse 0xff]).length < operand.toNat := by
    intro op operand hmem hop
    simp only [payToKeyProgram, List.cons_append, List.nil_append, List.mem_cons,
      Instruction.unary.injEq, reduceCtorEq, false_or, List.not_mem_nil, or_false] at hmem
    rcases hmem with ⟨rfl, -⟩ | ⟨-, rfl⟩ | ⟨-, rfl⟩
    · cases hop
    · decide
    · decide
  obtain ⟨refusal, haborted⟩ :=
    aborted_of_run_concat_burn hburn (by simp [payToKeyProgram]) hjump hrun
  rw [Halt.settled, haborted] at hverdict
  exact Outcome.ok_eq_true_iff.mp hok refusal hverdict.symm

end

/-! ## The script that unlocks them -/

theorem decode_unlockWith (signature : FixedBytes 65) (key : PublicKey) :
    decode (unlockWith signature key) = .ok [.pushBytes signature.bytes, .pushBytes key.bytes] := by
  have hspell : unlockWith signature key =
      [Instruction.pushBytes signature.bytes, .pushBytes key.bytes].flatMap Instruction.spell := by
    simp only [unlockWith, List.flatMap_cons, List.flatMap_nil, List.append_nil]
  rw [hspell]
  exact decode_flatMap_spell (by simp [Instruction.IsSpellable])

theorem length_unlockWith (signature : FixedBytes 65) (key : PublicKey) :
    (unlockWith signature key).length = 133 := by
  simp [unlockWith, Instruction.spell]

/-- Under the standard limits, the script that pushes a signature and the key it recovers to proves
the key for every lock script of moderate size. -/
theorem keyProof_unlockWith {message lock parameter : Bytes} {lockSteps : Nat}
    {signature : FixedBytes 65} {key : PublicKey} (hlock : lock.length ≤ 1024)
    (hsteps : lockSteps ≤ 998) (hhash : key.hash.bytes = parameter)
    (hrecover : (Signature.ofFixedBytes signature).recover message = .ok key) :
    KeyProof .standard message lockSteps lock parameter (unlockWith signature key) := by
  refine ⟨_, [], signature, key, ?_, hlock, decode_unlockWith signature key, rfl, ?_, ?_, hhash,
    hrecover⟩
  · rw [length_unlockWith]
    decide
  · change 2 + lockSteps ≤ 1000
    omega
  · change 2 + 2 ≤ 1024
    decide

end ShardLedger.Script
