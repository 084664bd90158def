import ShardLedger.Script.Instruction

/-!
# Refusals

The reasons for which a proof does not unlock an output: the limits, the stack and
the instructions of the script machine, and the checks made around it.
-/

namespace ShardLedger.Script

/-- The two scripts of an evaluation. -/
inductive Role where
  | unlock
  | lock
deriving DecidableEq, Repr

/-- The role as messages name it. -/
def Role.name : Role → String
  | unlock => "unlock"
  | lock => "lock"

/-- Why an evaluation does not authorize. -/
inductive Refusal where
  /-- A push onto a full stack. -/
  | stackOverflow
  /-- A pop from the empty stack. -/
  | stackUnderflow
  /-- A look below the bottom of the stack. -/
  | stackUnderflowAt (depth : Nat)
  /-- More instructions than allowed. -/
  | stepLimit
  /-- A burn while spending. -/
  | burnForbidden
  /-- The script gives up. -/
  | failExecuted
  /-- A jump past the end. -/
  | jumpedOut (operation : Unary)
  /-- A script longer than allowed. -/
  | scriptTooLong (role : Role) (limit : Nat)
  /-- Bytes that are not a script. -/
  | malformed (flaw : Flaw)
  /-- An unlock script that does more than push. -/
  | notPushOnly
  /-- The end of the script with nothing true on top of the stack. -/
  | noTrueValue
  /-- A burn that leaves the asset unburnt. -/
  | notBurnt
  /-- No entry at this position. -/
  | indexOutOfRange (index : Int)
  /-- An out point that does not say how it is locked. -/
  | noLockData
  /-- A lock script with another hash than the one recorded. -/
  | lockScriptMismatch
  /-- A standard script without its single parameter. -/
  | parameterCount (count : Nat)
deriving DecidableEq

/-- What a refusal is reported as. -/
def Refusal.message : Refusal → String
  | stackOverflow => "stack overflow"
  | stackUnderflow => "stack underflow"
  | stackUnderflowAt depth => s!"stack underflow reading depth {depth}"
  | stepLimit => "step limit exceeded"
  | burnForbidden => "BURN is only valid for burn inputs"
  | failExecuted => "FAIL executed"
  | jumpedOut operation => s!"{operation.name} jumped out of the program"
  | scriptTooLong role limit => s!"{role.name} script exceeds {limit} bytes"
  | malformed flaw => flaw.message
  | notPushOnly => "unlock script must contain only push instructions"
  | noTrueValue => "script finished without a true value on the stack"
  | notBurnt => "burn input was not burnt"
  | indexOutOfRange index => s!"input index {index} out of range"
  | noLockData => "out point does not record its lock script hash and parameters"
  | lockScriptMismatch => "lock script does not match the recorded lock script hash"
  | parameterCount count => s!"expected exactly 1 parameter, got {count}"

end ShardLedger.Script
