import ShardLedger.Proofs.Script.Run
import ShardLedger.Script.Execution

/-!
# Scripts that only push

An unlock script may only push.  Such a script puts its items onto the stack in
order, one step each, or breaks off at one of the two limits.
-/

namespace ShardLedger.Script

/-- The item that an instruction pushes by itself, if pushing is all it does. -/
def Instruction.pushed? : Instruction → Option Bytes
  | unary .push operand => some [operand]
  | pushBytes data => some data
  | _ => none

theorem Instruction.isPush_eq_isSome_pushed? (instruction : Instruction) :
    instruction.isPush = instruction.pushed?.isSome := by
  rcases instruction with op | ⟨op, operand⟩ | data
  · rfl
  · cases op <;> rfl
  · rfl

theorem Instruction.effect_of_pushed {setting : Setting} {stack : Stack}
    {instruction : Instruction} {item : Bytes} (hitem : instruction.pushed? = some item) :
    instruction.effect setting stack = .ok (push setting.limits item stack) := by
  rcases instruction with op | ⟨op, operand⟩ | data
  · cases hitem
  · cases op <;> cases hitem
    rfl
  · cases hitem
    rfl

/-- The instructions push exactly these items, in this order, and do nothing else. -/
def Pushes (program : List Instruction) (items : List Bytes) : Prop :=
  program.map Instruction.pushed? = items.map some

theorem Pushes.length_eq {program : List Instruction} {items : List Bytes}
    (hpushes : Pushes program items) : program.length = items.length := by
  simpa using congrArg List.length hpushes

theorem pushes_cons_iff {instruction : Instruction} {program : List Instruction}
    {items : List Bytes} :
    Pushes (instruction :: program) items ↔
      ∃ item later, items = item :: later ∧ instruction.pushed? = some item ∧
        Pushes program later := by
  cases items with
  | nil => simp [Pushes]
  | cons item later =>
      rw [Pushes, List.map_cons, List.map_cons, List.cons.injEq]
      constructor
      · rintro ⟨hitem, hlater⟩
        exact ⟨item, later, rfl, hitem, hlater⟩
      · rintro ⟨_, _, hitems, hitem, hlater⟩
        cases hitems
        exact ⟨hitem, hlater⟩

/-- A program may be used as an unlock script if and only if it pushes some items. -/
theorem all_isPush_iff_exists_pushes {program : List Instruction} :
    program.all Instruction.isPush = true ↔ ∃ items, Pushes program items := by
  induction program with
  | nil => simp [Pushes]
  | cons instruction program ih =>
      rw [List.all_cons, Bool.and_eq_true, ih, Instruction.isPush_eq_isSome_pushed?,
        Option.isSome_iff_exists]
      constructor
      · rintro ⟨⟨item, hitem⟩, items, hitems⟩
        exact ⟨item :: items, pushes_cons_iff.mpr ⟨item, items, rfl, hitem, hitems⟩⟩
      · rintro ⟨items, hitems⟩
        obtain ⟨item, later, -, hitem, hlater⟩ := pushes_cons_iff.mp hitems
        exact ⟨⟨item, hitem⟩, later, hlater⟩

section

variable {setting : Setting} {program : List Instruction} {items : List Bytes}

/-- Within the limits, a pushing script runs to its end and leaves its items, the last one on
top. -/
theorem run_pushes (hpushes : Pushes program items) {steps : Nat} {stack : Stack}
    (hsteps : steps + items.length ≤ setting.limits.maxSteps)
    (hstack : stack.length + items.length ≤ setting.limits.maxStack) :
    run setting steps stack program =
      .ok ⟨.finished, steps + items.length, items.reverse ++ stack⟩ := by
  induction program generalizing items steps stack with
  | nil =>
      have hlength := hpushes.length_eq
      obtain rfl : items = [] := List.eq_nil_of_length_eq_zero hlength.symm
      exact run_nil setting steps stack
  | cons instruction program ih =>
      obtain ⟨item, later, rfl, hitem, hlater⟩ := pushes_cons_iff.mp hpushes
      rw [List.length_cons] at hsteps hstack
      refine (run_push (by omega) (by omega) (Instruction.effect_of_pushed hitem)).trans ?_
      rw [ih hlater (by omega) (by rw [List.length_cons]; omega)]
      simp only [List.length_cons, List.reverse_cons, List.append_assoc, List.singleton_append]
      rw [show steps + 1 + later.length = steps + (later.length + 1) by omega]

/-- A pushing script breaks off unless the limits leave room for all of its items. -/
theorem run_pushes_cases (hpushes : Pushes program items) {steps : Nat} {stack : Stack}
    (hsteps : steps ≤ setting.limits.maxSteps) (hstack : stack.length ≤ setting.limits.maxStack) :
    Aborts (run setting steps stack program) ∨
      steps + items.length ≤ setting.limits.maxSteps ∧
        stack.length + items.length ≤ setting.limits.maxStack := by
  induction program generalizing items steps stack with
  | nil =>
      have hlength := hpushes.length_eq
      rw [List.length_nil] at hlength
      right
      omega
  | cons instruction program ih =>
      obtain ⟨item, later, rfl, hitem, hlater⟩ := pushes_cons_iff.mp hpushes
      refine aborts_or_of_push (Instruction.effect_of_pushed hitem) fun hfree hroom => ?_
      have hstack' : (item :: stack).length ≤ setting.limits.maxStack := hroom
      rcases ih hlater hfree hstack' with habort | ⟨hsteps', hstack'⟩
      · exact Or.inl habort
      · rw [List.length_cons] at hstack' ⊢
        right
        omega

end

/-! ## Pushing items one by one -/

theorem pushAll?_eq_some {limits : Limits} {items : List Bytes} {stack later : Stack}
    (hpush : pushAll? limits items stack = some later) : later = items.reverse ++ stack := by
  induction items generalizing stack with
  | nil => exact (Option.some.inj hpush).symm
  | cons item rest ih =>
      rw [pushAll?] at hpush
      split at hpush
      next => cases hpush
      next => rw [ih hpush, List.reverse_cons, List.append_assoc, List.singleton_append]

theorem pushAll?_eq_some_iff {limits : Limits} {items : List Bytes} {stack later : Stack}
    (hstack : stack.length ≤ limits.maxStack) :
    pushAll? limits items stack = some later ↔
      stack.length + items.length ≤ limits.maxStack ∧ later = items.reverse ++ stack := by
  induction items generalizing stack with
  | nil =>
      rw [pushAll?, Option.some.injEq, List.length_nil, Nat.add_zero, List.reverse_nil,
        List.nil_append]
      exact ⟨fun hlater => ⟨hstack, hlater.symm⟩, fun hlater => hlater.2.symm⟩
  | cons item rest ih =>
      rw [pushAll?, List.reverse_cons, List.append_assoc, List.singleton_append, List.length_cons]
      by_cases hfull : limits.maxStack ≤ stack.length
      · rw [if_pos hfull]
        constructor
        · intro hnone
          cases hnone
        · rintro ⟨hroom, -⟩
          omega
      · rw [if_neg hfull, ih (by rw [List.length_cons]; omega), List.length_cons]
        constructor
        · rintro ⟨hroom, hlater⟩
          exact ⟨by omega, hlater⟩
        · rintro ⟨hroom, hlater⟩
          exact ⟨by omega, hlater⟩

end ShardLedger.Script
