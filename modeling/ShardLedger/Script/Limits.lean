/-!
# Limits of an evaluation

Three bounds keep every evaluation small: on the length of each script, on the number
of instructions that are carried out, and on the number of items on the stack.
-/

namespace ShardLedger.Script

/-- The limits of an evaluation; all of them are at least one. -/
structure Limits where
  /-- The longest accepted script, in bytes. -/
  maxLength : Nat := 1024
  /-- The number of instructions carried out before giving up. -/
  maxSteps : Nat := 1000
  /-- The deepest allowed stack. -/
  maxStack : Nat := 1024
  maxLength_pos : 0 < maxLength := by decide
  maxSteps_pos : 0 < maxSteps := by decide
  maxStack_pos : 0 < maxStack := by decide
deriving DecidableEq

/-- The limits in use unless others are set. -/
def Limits.standard : Limits := {}

end ShardLedger.Script
