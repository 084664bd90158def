import ShardLedger.Script.Machine

/-!
# Executing a pair of scripts

To spend an output, the spender's unlock script runs first and may only push.  Then the
output's parameters are pushed, and the lock script decides on the same stack.  Burning
an output takes the same path, but must end with the burn.
-/

namespace ShardLedger.Script

/-- What an execution comes to. -/
inductive Verdict where
  | unlocked
  | burnt
  | refused (refusal : Refusal)
deriving DecidableEq

/-- A verdict and the number of instructions begun. -/
structure Outcome where
  verdict : Verdict
  steps : Nat
deriving DecidableEq

/-- Whether an outcome authorizes. -/
def Outcome.ok (outcome : Outcome) : Bool :=
  match outcome.verdict with
  | .refused _ => false
  | _ => true

/-- The reason of a refusal, and nothing otherwise. -/
def Outcome.reason (outcome : Outcome) : String :=
  match outcome.verdict with
  | .refused refusal => refusal.message
  | _ => ""

/-- An execution that is refused before it starts. -/
def Outcome.refusedAtOnce (refusal : Refusal) : Outcome :=
  ⟨.refused refusal, 0⟩

/-- Push items in order; nothing when the stack overflows. -/
def pushAll? (limits : Limits) : List Bytes → Stack → Option Stack
  | [], stack => some stack
  | item :: rest, stack =>
    if limits.maxStack ≤ stack.length then none else pushAll? limits rest (item :: stack)

/-- The decoded scripts of an execution, unless a length, a spelling or the unlock script's
instructions rule it out. -/
def prepare (limits : Limits) (unlock lock : Bytes) :
    Except Refusal (List Instruction × List Instruction) :=
  if limits.maxLength < unlock.length then .error (.scriptTooLong .unlock limits.maxLength)
  else if limits.maxLength < lock.length then .error (.scriptTooLong .lock limits.maxLength)
  else
    match decode unlock with
    | .error flaw => .error (.malformed flaw)
    | .ok unlock =>
      match decode lock with
      | .error flaw => .error (.malformed flaw)
      | .ok lock => if unlock.all Instruction.isPush then .ok (unlock, lock) else .error .notPushOnly

/-- Run an unlock script, push the parameters, and run a lock script on what is there. -/
def runPair (setting : Setting) (unlock : List Instruction) (parameters : List Bytes)
    (lock : List Instruction) : Except Fault Halt := do
  let first ← run setting 0 [] unlock
  match first.ending with
  | .aborted _ => return first
  | _ =>
    match pushAll? setting.limits parameters first.stack with
    | some stack => run setting first.steps stack lock
    | none => return { first with ending := .aborted .stackOverflow }

/-- The verdict on how an execution ended, when the asset is to be burnt or not. -/
def verdict (burn : Bool) : Ending → Verdict
  | .aborted refusal => .refused refusal
  | .burnt => .burnt
  | _ => if burn then .refused .notBurnt else .unlocked

/-- Execute an unlock script, parameters and a lock script. -/
def execute (setting : Setting) (unlock : Bytes) (parameters : List Bytes) (lock : Bytes) :
    Except Fault Outcome :=
  match prepare setting.limits unlock lock with
  | .error refusal => .ok (.refusedAtOnce refusal)
  | .ok (unlock, lock) => do
    let halt ← runPair setting unlock parameters lock
    return ⟨verdict setting.burn halt.settled, halt.steps⟩

end ShardLedger.Script
