import ShardLedger.Bytes.Hex

/-!
# Script instructions

A script is a sequence of instructions, each spelled as a code byte and, for some,
an operand: one byte, or a length byte and that many data bytes.  `spell` writes an
instruction and `decode` reads a whole script.
-/

namespace ShardLedger.Script

/-- Instructions without an operand. -/
inductive Plain where
  | nop
  | burn
  | success
  | fail
  | not
  | eq
  | pop
  | dup
  | swap
  | checkSignature
  | blake256
  | sha256
  | ripemd160
deriving DecidableEq, Repr

/-- Instructions with an operand of one byte. -/
inductive Unary where
  | jump
  | jumpIfTrue
  | jumpIfFalse
  | push
  | copy
  | drop
deriving DecidableEq, Repr

/-- An instruction and its operand. -/
inductive Instruction where
  | plain (operation : Plain)
  | unary (operation : Unary) (operand : UInt8)
  | pushBytes (data : Bytes)
deriving DecidableEq, Repr

namespace Plain

/-- The code byte. -/
def code : Plain → UInt8
  | nop => 0x00
  | burn => 0x01
  | success => 0x02
  | fail => 0x03
  | not => 0x10
  | eq => 0x11
  | pop => 0x31
  | dup => 0x33
  | swap => 0x34
  | checkSignature => 0x80
  | blake256 => 0x90
  | sha256 => 0x91
  | ripemd160 => 0x92

/-- The name in listings. -/
def name : Plain → String
  | nop => "NOP"
  | burn => "BURN"
  | success => "SUCCESS"
  | fail => "FAIL"
  | not => "NOT"
  | eq => "EQ"
  | pop => "POP"
  | dup => "DUP"
  | swap => "SWAP"
  | checkSignature => "CHKSIG"
  | blake256 => "BLAKE256"
  | sha256 => "SHA256"
  | ripemd160 => "RIPEMD160"

/-- Every instruction without an operand. -/
def all : List Plain :=
  [nop, burn, success, fail, not, eq, pop, dup, swap, checkSignature, blake256, sha256, ripemd160]

/-- The instruction with a given code. -/
def ofCode? (b : UInt8) : Option Plain :=
  all.find? fun op => op.code = b

end Plain

namespace Unary

/-- The code byte. -/
def code : Unary → UInt8
  | jump => 0x20
  | jumpIfTrue => 0x21
  | jumpIfFalse => 0x22
  | push => 0x30
  | copy => 0x35
  | drop => 0x36

/-- The name in listings and messages. -/
def name : Unary → String
  | jump => "JMP"
  | jumpIfTrue => "JNZ"
  | jumpIfFalse => "JZ"
  | push => "PUSH"
  | copy => "COPY"
  | drop => "DROP"

/-- Every instruction with an operand of one byte. -/
def all : List Unary :=
  [jump, jumpIfTrue, jumpIfFalse, push, copy, drop]

/-- The instruction with a given code. -/
def ofCode? (b : UInt8) : Option Unary :=
  all.find? fun op => op.code = b

end Unary

/-- The code byte in front of a length and data to push. -/
def pushBytesCode : UInt8 := 0x32

namespace Instruction

/-- The name in listings. -/
def name : Instruction → String
  | plain op => op.name
  | unary op _ => op.name
  | pushBytes _ => "PUSHB"

/-- The bytes that spell an instruction. -/
def spell : Instruction → Bytes
  | plain op => [op.code]
  | unary op operand => [op.code, operand]
  | pushBytes data => pushBytesCode :: data.length.toUInt8 :: data

/-- Whether a length byte can tell how many data bytes follow. -/
def IsSpellable : Instruction → Prop
  | pushBytes data => data.length < 256
  | _ => True

/-- Whether an instruction only pushes. -/
def isPush : Instruction → Bool
  | unary .push _ => true
  | pushBytes _ => true
  | _ => false

end Instruction

/-- Why bytes are not a script. -/
inductive Flaw where
  /-- No instruction has this code. -/
  | unknownCode (code : UInt8) (offset : Nat)
  /-- The script ends in front of an operand. -/
  | missingOperand (operation : Unary)
  /-- The script ends in front of a length. -/
  | missingLength
  /-- The script ends inside the data to push. -/
  | missingData (wanted remaining : Nat)
deriving DecidableEq

/-- What a flaw is reported as. -/
def Flaw.message : Flaw → String
  | unknownCode code offset =>
    s!"unknown opcode {Hex.shown [code]} at offset {offset}"
  | missingOperand operation => s!"{operation.name} is missing its operand"
  | missingLength => "PUSHB is missing its length"
  | missingData wanted remaining => s!"PUSHB wants {wanted} bytes, only {remaining} remain"

/-- What is wrong with a code byte that needs an operand or length and stands at the end. -/
def flawAtEnd (code : UInt8) (offset : Nat) : Flaw :=
  match Unary.ofCode? code with
  | some op => .missingOperand op
  | none => if code = pushBytesCode then .missingLength else .unknownCode code offset

/-- The instructions of a script that starts at an offset of a longer one. -/
def decodeFrom (offset : Nat) (script : Bytes) : Except Flaw (List Instruction) :=
  match script with
  | [] => .ok []
  | code :: rest =>
    match Plain.ofCode? code with
    | some op => do
      return .plain op :: (← decodeFrom (offset + 1) rest)
    | none =>
      match rest with
      | [] => .error (flawAtEnd code offset)
      | operand :: rest =>
        match Unary.ofCode? code with
        | some op => do
          return .unary op operand :: (← decodeFrom (offset + 2) rest)
        | none =>
          if code = pushBytesCode then
            let length := operand.toNat
            let data := rest.take length
            if data.length < length then .error (.missingData length data.length)
            else do
              let later ← decodeFrom (offset + 2 + length) (rest.drop length)
              return .pushBytes data :: later
          else .error (.unknownCode code offset)
termination_by script.length

/-- The instructions of a script. -/
def decode (script : Bytes) : Except Flaw (List Instruction) :=
  decodeFrom 0 script

end ShardLedger.Script
