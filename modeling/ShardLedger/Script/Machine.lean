import ShardLedger.Hash.Sha256
import ShardLedger.Script.Limits
import ShardLedger.Signature.Key

/-!
# The script machine

A script works on a stack of byte strings, whose top comes first here.  An instruction
changes the stack, asks for a jump over some of the instructions behind it, or ends the
evaluation.  Jumps only lead forward, so a run follows the list of instructions that are
still to come.  An instruction that fails keeps what it took from the stack so far.
-/

namespace ShardLedger.Script

/-- The items of an evaluation, the last one pushed in front. -/
abbrev Stack := List Bytes

/-- What an evaluation runs against. -/
structure Setting where
  /-- The message of signature checks. -/
  message : Bytes
  /-- Whether the asset is to be burnt. -/
  burn : Bool
  limits : Limits

/-- How a run ends. -/
inductive Ending where
  /-- The script releases the asset. -/
  | unlocked
  /-- The script burns the asset. -/
  | burnt
  /-- The script has no further instruction. -/
  | finished
  /-- The script breaks off. -/
  | aborted (refusal : Refusal)
deriving DecidableEq

/-- What one instruction brings about. -/
inductive Effect where
  /-- Go on with the next instruction. -/
  | next (stack : Stack)
  /-- Go on behind the given number of further instructions. -/
  | jump (operation : Unary) (distance : Nat) (stack : Stack)
  /-- End the run. -/
  | stop (ending : Ending) (stack : Stack)

/-- The item that stands for true. -/
def trueItem : Bytes := [1]

/-- The item that stands for false. -/
def falseItem : Bytes := []

/-- The item for a truth value. -/
def truthItem (b : Bool) : Bytes :=
  if b then trueItem else falseItem

/-- Whether an item counts as true: some byte of it is not zero. -/
def isTrue (item : Bytes) : Bool :=
  Bytes.anyNonzero item

/-- Break off. -/
def abort (refusal : Refusal) (stack : Stack) : Effect :=
  .stop (.aborted refusal) stack

/-- Push an item. -/
def push (limits : Limits) (item : Bytes) (stack : Stack) : Effect :=
  if limits.maxStack ≤ stack.length then abort .stackOverflow stack else .next (item :: stack)

/-- Pop an item and push what it is turned into. -/
def replaceTop (limits : Limits) (f : Bytes → Bytes) : Stack → Effect
  | [] => abort .stackUnderflow []
  | x :: rest => push limits (f x) rest

/-- Whether 65 bytes are a signature over a message by a 64-byte public key.  Malformed input
counts as a wrong signature. -/
def checkSignature (message signature key : Bytes) : Except Fault Bool :=
  match FixedBytes.ofBytes? 65 signature, FixedBytes.ofBytes? 64 key with
  | some signature, some key =>
    match (Signature.ofFixedBytes signature).recover message with
    | .ok signer => .ok (signer = key)
    | .error (.malformed _) => .ok false
    | .error fault => .error fault
  | _, _ => .ok false

/-- What an instruction without operand does. -/
def Plain.effect (setting : Setting) (op : Plain) (stack : Stack) : Except Fault Effect :=
  let limits := setting.limits
  match op with
  | nop => .ok (.next stack)
  | burn => .ok (if setting.burn then .stop .burnt stack else abort .burnForbidden stack)
  | success => .ok (.stop .unlocked stack)
  | fail => .ok (abort .failExecuted stack)
  | not => .ok (replaceTop limits (fun x => truthItem (!isTrue x)) stack)
  | eq =>
    match stack with
    | x :: y :: rest => .ok (push limits (truthItem (x = y)) rest)
    | _ => .ok (abort .stackUnderflow [])
  | pop =>
    match stack with
    | _ :: rest => .ok (.next rest)
    | [] => .ok (abort .stackUnderflow [])
  | dup =>
    match stack with
    | x :: rest => .ok (push limits x (x :: rest))
    | [] => .ok (abort (.stackUnderflowAt 0) [])
  | swap =>
    match stack with
    | x :: y :: rest =>
      match push limits x rest with
      | .next stack => .ok (push limits y stack)
      | stopped => .ok stopped
    | _ => .ok (abort .stackUnderflow [])
  | checkSignature =>
    match stack with
    | key :: signature :: rest => do
      return push limits (truthItem (← Script.checkSignature setting.message signature key)) rest
    | _ => .ok (abort .stackUnderflow [])
  | blake256 => .ok (replaceTop limits (fun x => (contentHash x).bytes) stack)
  | sha256 => .ok (replaceTop limits (fun x => (Sha256.digest x).bytes) stack)
  | ripemd160 => .ok (replaceTop limits (fun x => (Ripemd160.digest x).bytes) stack)

/-- What a conditional jump does: it pops the item that decides. -/
def jumpWhen (op : Unary) (wanted : Bool) (distance : Nat) : Stack → Effect
  | [] => abort .stackUnderflow []
  | x :: rest => if isTrue x = wanted then .jump op distance rest else .next rest

/-- What an instruction with an operand of one byte does. -/
def Unary.effect (limits : Limits) (op : Unary) (operand : UInt8) (stack : Stack) : Effect :=
  match op with
  | jump => .jump op operand.toNat stack
  | jumpIfTrue => jumpWhen op true operand.toNat stack
  | jumpIfFalse => jumpWhen op false operand.toNat stack
  | push => Script.push limits [operand] stack
  | copy =>
    match stack[operand.toNat]? with
    | some item => Script.push limits item stack
    | none => abort (.stackUnderflowAt operand.toNat) stack
  | drop =>
    if operand.toNat < stack.length then .next (stack.eraseIdx operand.toNat)
    else abort (.stackUnderflowAt operand.toNat) stack

/-- What an instruction does. -/
def Instruction.effect (setting : Setting) (stack : Stack) : Instruction → Except Fault Effect
  | plain op => op.effect setting stack
  | unary op operand => .ok (op.effect setting.limits operand stack)
  | pushBytes data => .ok (push setting.limits data stack)

/-- Where a run has ended. -/
structure Halt where
  ending : Ending
  /-- The number of instructions begun, of earlier runs as well. -/
  steps : Nat
  stack : Stack
deriving DecidableEq

/-- Run instructions, after a number of steps that count towards the limit. -/
def run (setting : Setting) (steps : Nat) (stack : Stack) (program : List Instruction) :
    Except Fault Halt :=
  match program with
  | [] => .ok ⟨.finished, steps, stack⟩
  | instruction :: rest =>
    if setting.limits.maxSteps ≤ steps then .ok ⟨.aborted .stepLimit, steps + 1, stack⟩
    else
      match instruction.effect setting stack with
      | .error fault => .error fault
      | .ok (.next stack) => run setting (steps + 1) stack rest
      | .ok (.jump op distance stack) =>
        if distance ≤ rest.length then run setting (steps + 1) stack (rest.drop distance)
        else .ok ⟨.aborted (.jumpedOut op), steps + 1, stack⟩
      | .ok (.stop ending stack) => .ok ⟨ending, steps + 1, stack⟩
termination_by program.length
decreasing_by
  · exact Nat.lt_succ_self _
  · rw [List.length_drop]
    exact Nat.lt_succ_of_le (Nat.sub_le _ _)

/-- What a finished script amounts to: it needs a true item on top. -/
def finalCheck : Stack → Ending
  | top :: _ => if isTrue top then .unlocked else .aborted .noTrueValue
  | [] => .aborted .noTrueValue

/-- Subject a run to the final check if it finished. -/
def Halt.settled (halt : Halt) : Ending :=
  match halt.ending with
  | .finished => finalCheck halt.stack
  | ending => ending

end ShardLedger.Script
