import Mathlib.Logic.Relation
import ShardLedger.Proofs.Script.Run

/-!
# Runs, step by step

A run that goes on has come a step further: it has begun one more instruction, and the
instructions to come are a shorter end of the program.  This file states the steps as a
relation, and says how many instructions of the program are behind a run at each step.
-/

namespace ShardLedger.Script

/-- How far a run has come: the steps begun, the stack, and the instructions to come. -/
structure Progress where
  steps : Nat
  stack : Stack
  program : List Instruction

/-- A run begins an instruction that goes on or jumps. -/
inductive Step (setting : Setting) : Progress → Progress → Prop
  | next {steps : Nat} {stack later : Stack} {instruction : Instruction}
      {rest : List Instruction} (hsteps : steps < setting.limits.maxSteps)
      (heffect : instruction.effect setting stack = .ok (.next later)) :
      Step setting ⟨steps, stack, instruction :: rest⟩ ⟨steps + 1, later, rest⟩
  | jump {steps distance : Nat} {stack later : Stack} {op : Unary} {instruction : Instruction}
      {rest : List Instruction} (hsteps : steps < setting.limits.maxSteps)
      (heffect : instruction.effect setting stack = .ok (.jump op distance later))
      (hdistance : distance ≤ rest.length) :
      Step setting ⟨steps, stack, instruction :: rest⟩ ⟨steps + 1, later, rest.drop distance⟩

/-- The rest of a run from where it has got to. -/
def Progress.run (setting : Setting) (p : Progress) : Except Fault Halt :=
  Script.run setting p.steps p.stack p.program

theorem Step.run_eq {setting : Setting} {p q : Progress} (hstep : Step setting p q) :
    p.run setting = q.run setting := by
  cases hstep with
  | next hsteps heffect => exact run_next hsteps heffect
  | jump hsteps heffect hdistance => exact (run_jump hsteps heffect).trans (if_pos hdistance)

theorem run_eq_of_reaches {setting : Setting} {p q : Progress}
    (hreaches : Relation.ReflTransGen (Step setting) p q) : p.run setting = q.run setting := by
  induction hreaches with
  | refl => rfl
  | tail _ hstep ih => exact ih.trans hstep.run_eq

/-! ## The counter -/

/-- How many instructions of a program are behind a run. -/
def Progress.counter (program : List Instruction) (p : Progress) : Nat :=
  program.length - p.program.length

section

variable {setting : Setting} {p q : Progress}

theorem Step.isSuffix (hstep : Step setting p q) : q.program <:+ p.program := by
  cases hstep with
  | next => exact List.suffix_cons _ _
  | jump => exact (List.drop_suffix _ _).trans (List.suffix_cons _ _)

theorem Step.length_lt (hstep : Step setting p q) : q.program.length < p.program.length := by
  cases hstep with
  | next => exact Nat.lt_succ_self _
  | jump =>
      rw [List.length_drop, List.length_cons]
      omega

theorem isSuffix_of_reaches (hreaches : Relation.ReflTransGen (Step setting) p q) :
    q.program <:+ p.program := by
  induction hreaches with
  | refl => exact List.suffix_rfl
  | tail _ hstep ih => exact hstep.isSuffix.trans ih

theorem length_lt_of_transGen (hreaches : Relation.TransGen (Step setting) p q) :
    q.program.length < p.program.length := by
  induction hreaches with
  | single hstep => exact hstep.length_lt
  | tail _ hstep ih => exact Nat.lt_trans hstep.length_lt ih

variable {program : List Instruction}

theorem Progress.program_eq_drop_counter (hsuffix : p.program <:+ program) :
    p.program = program.drop (p.counter program) :=
  List.suffix_iff_eq_drop.mp hsuffix

theorem Progress.counter_add_length (hsuffix : p.program <:+ program) :
    p.counter program + p.program.length = program.length :=
  Nat.sub_add_cancel hsuffix.length_le

theorem counter_lt_of_transGen (hsuffix : p.program <:+ program)
    (hreaches : Relation.TransGen (Step setting) p q) :
    p.counter program < q.counter program := by
  have hshorter := length_lt_of_transGen hreaches
  have hle := hsuffix.length_le
  rw [Progress.counter, Progress.counter]
  omega

end

end ShardLedger.Script
