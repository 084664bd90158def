import ShardLedger.Proofs.Script.Run

/-!
# Limits and the depth of the stack

Limits reach an instruction only through its pushes.  An instruction that pops before it
pushes always finds the place it needs, so its effect does not depend on the limits at
all.  The others push a single item onto the stack as it is, which goes on or overflows.
Everything about the depth of the stack follows from this division.
-/

namespace ShardLedger.Script

/-- The stack that an instruction leaves. -/
def Effect.stack : Effect → Stack
  | next stack | jump _ _ stack | stop _ stack => stack

/-- Whether a refusal comes from the limits of the evaluation. -/
def Refusal.isLimit : Refusal → Bool
  | stackOverflow | stepLimit | scriptTooLong _ _ => true
  | _ => false

/-- Whether an instruction pushes an item without popping one before. -/
def Instruction.grows : Instruction → Bool
  | plain .dup | unary .push _ | unary .copy _ | pushBytes _ => true
  | _ => false

/-- All limits that admit the stack lead to the same effect, which leaves no deeper stack and is
not refused for a limit. -/
def Steady (stack : Stack) (effectUnder : Limits → Except Fault Effect) : Prop :=
  ∃ result, (∀ limits, stack.length ≤ limits.maxStack → effectUnder limits = result) ∧
    ∀ effect, result = .ok effect → effect.stack.length ≤ stack.length ∧
      ∀ refusal later, effect = abort refusal later → refusal.isLimit = false

/-! ## Steady effects -/

theorem steady_abort {refusal : Refusal} (hrefusal : refusal.isLimit = false) {stack later : Stack}
    (hlater : later.length ≤ stack.length) :
    Steady stack fun _ => .ok (abort refusal later) := by
  refine ⟨_, fun _ _ => rfl, ?_⟩
  rintro effect ⟨⟩
  refine ⟨hlater, ?_⟩
  rintro refusal later ⟨⟩
  exact hrefusal

theorem steady_of_ne_abort {effect : Effect}
    (hgoes : ∀ refusal later, effect ≠ abort refusal later) {stack : Stack}
    (hlater : effect.stack.length ≤ stack.length) : Steady stack fun _ => .ok effect := by
  refine ⟨_, fun _ _ => rfl, ?_⟩
  rintro effect ⟨⟩
  exact ⟨hlater, fun refusal later habort => absurd habort (hgoes refusal later)⟩

theorem steady_error (stack : Stack) (fault : Fault) : Steady stack fun _ => .error fault :=
  ⟨_, fun _ _ => rfl, nofun⟩

theorem steady_next {stack later : Stack} (hlater : later.length ≤ stack.length) :
    Steady stack fun _ => .ok (.next later) :=
  steady_of_ne_abort (fun _ _ habort => by cases habort) hlater

theorem steady_jump {op : Unary} {distance : Nat} {stack later : Stack}
    (hlater : later.length ≤ stack.length) :
    Steady stack fun _ => .ok (.jump op distance later) :=
  steady_of_ne_abort (fun _ _ habort => by cases habort) hlater

theorem Steady.congr {stack : Stack} {effectUnder other : Limits → Except Fault Effect}
    (hsteady : Steady stack effectUnder)
    (hsame : ∀ limits, stack.length ≤ limits.maxStack → other limits = effectUnder limits) :
    Steady stack other := by
  obtain ⟨result, hresult, hgood⟩ := hsteady
  exact ⟨result, fun limits hroom => (hsame limits hroom).trans (hresult limits hroom), hgood⟩

/-- A push finds the place of an item that has been popped. -/
theorem steady_push {item : Bytes} {stack rest : Stack} (hpopped : rest.length < stack.length) :
    Steady stack fun limits => .ok (push limits item rest) := by
  have hnext : Steady stack fun _ => .ok (.next (item :: rest)) := steady_next hpopped
  refine hnext.congr fun limits hroom => ?_
  rw [push_of_lt (Nat.lt_of_lt_of_le hpopped hroom)]

theorem steady_replaceTop (f : Bytes → Bytes) (stack : Stack) :
    Steady stack fun limits => .ok (replaceTop limits f stack) := by
  cases stack with
  | nil => exact steady_abort rfl (Nat.le_refl _)
  | cons x rest => exact steady_push (Nat.lt_succ_self _)

theorem steady_jumpWhen (op : Unary) (wanted : Bool) (distance : Nat) (stack : Stack) :
    Steady stack fun _ => .ok (jumpWhen op wanted distance stack) := by
  cases stack with
  | nil => exact steady_abort rfl (Nat.le_refl _)
  | cons x rest =>
      simp only [jumpWhen]
      split
      · exact steady_jump (Nat.le_succ _)
      · exact steady_next (Nat.le_succ _)

/-! ## Instructions -/

theorem Plain.steady {op : Plain} (hop : op ≠ .dup) (message : Bytes) (burn : Bool)
    (stack : Stack) : Steady stack fun limits => op.effect ⟨message, burn, limits⟩ stack := by
  cases op with
  | dup => exact absurd rfl hop
  | nop => exact steady_next (Nat.le_refl _)
  | burn =>
      cases burn with
      | true => exact steady_of_ne_abort (fun _ _ habort => by cases habort) (Nat.le_refl _)
      | false => exact steady_abort rfl (Nat.le_refl _)
  | success => exact steady_of_ne_abort (fun _ _ habort => by cases habort) (Nat.le_refl _)
  | fail => exact steady_abort rfl (Nat.le_refl _)
  | not | blake256 | sha256 | ripemd160 => exact steady_replaceTop _ stack
  | pop =>
      cases stack with
      | nil => exact steady_abort rfl (Nat.le_refl _)
      | cons x rest => exact steady_next (Nat.le_succ _)
  | eq =>
      match stack with
      | [] | [x] => exact steady_abort rfl (Nat.zero_le _)
      | x :: y :: rest => exact steady_push (Nat.lt_succ_of_lt (Nat.lt_succ_self _))
  | swap =>
      match stack with
      | [] | [x] => exact steady_abort rfl (Nat.zero_le _)
      | x :: y :: rest =>
          -- The first push leaves one place for the second.
          have hsecond : Steady (x :: y :: rest) fun limits => .ok (push limits y (x :: rest)) :=
            steady_push (Nat.lt_succ_self _)
          refine hsecond.congr fun limits hroom => ?_
          have hfirst : push limits x rest = .next (x :: rest) :=
            push_of_lt (Nat.lt_of_lt_of_le (Nat.lt_succ_of_lt (Nat.lt_succ_self _)) hroom)
          simp only [effect, hfirst]
  | checkSignature =>
      match stack with
      | [] | [x] => exact steady_abort rfl (Nat.zero_le _)
      | key :: signature :: rest =>
          simp only [effect]
          cases Script.checkSignature message signature key with
          | error fault => exact steady_error _ fault
          | ok valid => exact steady_push (Nat.lt_succ_of_lt (Nat.lt_succ_self _))

/-- An instruction has a steady effect, or it pushes a single item onto the stack as it is. -/
theorem Instruction.steady_or_pushes (message : Bytes) (burn : Bool) (stack : Stack)
    (instruction : Instruction) :
    Steady stack (fun limits => instruction.effect ⟨message, burn, limits⟩ stack) ∨
      instruction.grows = true ∧ ∃ item, ∀ limits,
        instruction.effect ⟨message, burn, limits⟩ stack = .ok (push limits item stack) := by
  cases instruction with
  | plain op =>
      by_cases hop : op = .dup
      · subst hop
        cases stack with
        | nil => exact Or.inl (steady_abort rfl (Nat.le_refl _))
        | cons x rest => exact Or.inr ⟨rfl, x, fun _ => rfl⟩
      · exact Or.inl (Plain.steady hop message burn stack)
  | unary op operand =>
      cases op with
      | jump => exact Or.inl (steady_jump (Nat.le_refl _))
      | jumpIfTrue | jumpIfFalse => exact Or.inl (steady_jumpWhen _ _ _ stack)
      | push => exact Or.inr ⟨rfl, [operand], fun _ => rfl⟩
      | copy =>
          cases hitem : stack[operand.toNat]? with
          | none =>
              left
              simp only [effect, Unary.effect, hitem]
              exact steady_abort rfl (Nat.le_refl _)
          | some item =>
              right
              refine ⟨rfl, item, fun limits => ?_⟩
              simp only [effect, Unary.effect, hitem]
      | drop =>
          left
          simp only [effect, Unary.effect]
          split
          · exact steady_next (List.length_eraseIdx_le _ _)
          · exact steady_abort rfl (Nat.le_refl _)
  | pushBytes data => exact Or.inr ⟨rfl, data, fun _ => rfl⟩

/-! ## The depth of the stack -/

theorem length_le_of_push {limits : Limits} {item : Bytes} {stack later : Stack}
    (hpush : push limits item stack = .next later) : later.length ≤ limits.maxStack := by
  rcases Nat.lt_or_ge stack.length limits.maxStack with hroom | hfull
  · rw [push_of_lt hroom] at hpush
    cases hpush
    exact hroom
  · rw [push_of_full hfull] at hpush
    cases hpush

section

variable {setting : Setting} {stack : Stack} {instruction : Instruction}

theorem Instruction.length_stack_effect_le {effect : Effect}
    (heffect : instruction.effect setting stack = .ok effect)
    (hstack : stack.length ≤ setting.limits.maxStack) :
    effect.stack.length ≤ setting.limits.maxStack := by
  rcases instruction.steady_or_pushes setting.message setting.burn stack with
    ⟨result, hresult, hgood⟩ | ⟨-, item, hpush⟩
  · have hsame := (hresult setting.limits hstack).symm.trans heffect
    exact Nat.le_trans (hgood effect hsame).1 hstack
  · have hpushed := (hpush setting.limits).symm.trans heffect
    rcases Nat.lt_or_ge stack.length setting.limits.maxStack with hroom | hfull
    · rw [push_of_lt hroom] at hpushed
      cases hpushed
      exact hroom
    · rw [push_of_full hfull] at hpushed
      cases hpushed
      exact hstack

/-- The only limit that refuses an instruction is that of the stack, and the instruction pushes onto
the full stack without having popped. -/
theorem Instruction.overflow_of_isLimit {refusal : Refusal} {later : Stack}
    (heffect : instruction.effect setting stack = .ok (abort refusal later))
    (hrefusal : refusal.isLimit = true) (hstack : stack.length ≤ setting.limits.maxStack) :
    refusal = .stackOverflow ∧ instruction.grows = true ∧
      stack.length = setting.limits.maxStack := by
  rcases instruction.steady_or_pushes setting.message setting.burn stack with
    ⟨result, hresult, hgood⟩ | ⟨hgrows, item, hpush⟩
  · have hsame := (hresult setting.limits hstack).symm.trans heffect
    rw [(hgood _ hsame).2 refusal later rfl] at hrefusal
    cases hrefusal
  · have hpushed := (hpush setting.limits).symm.trans heffect
    rcases Nat.lt_or_ge stack.length setting.limits.maxStack with hroom | hfull
    · rw [push_of_lt hroom] at hpushed
      cases hpushed
    · rw [push_of_full hfull] at hpushed
      cases hpushed
      exact ⟨rfl, hgrows, Nat.le_antisymm hstack hfull⟩

end

end ShardLedger.Script
