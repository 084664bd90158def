import ShardLedger.Bytes.Basic

/-!
# Hexadecimal text

Bytes are shown as two lower-case hexadecimal digits each.  Reading accepts both
cases, and skips the six ASCII blanks between bytes but not inside one.
-/

namespace ShardLedger.Hex

/-- The lower-case digit for a value below sixteen. -/
def digit (n : Nat) : Char :=
  if n < 10 then Char.ofNat (48 + n) else Char.ofNat (87 + n)

/-- The value of a hexadecimal digit of either case. -/
def value? (c : Char) : Option Nat :=
  if '0' ≤ c ∧ c ≤ '9' then some (c.toNat - 48)
  else if 'a' ≤ c ∧ c ≤ 'f' then some (c.toNat - 87)
  else if 'A' ≤ c ∧ c ≤ 'F' then some (c.toNat - 55)
  else none

/-- The two digits of one byte. -/
def pair (b : UInt8) : List Char :=
  [digit (b.toNat / 16), digit (b.toNat % 16)]

/-- The digits of a byte string. -/
def encode (b : Bytes) : List Char :=
  b.flatMap pair

/-- The digits of a byte string, as text. -/
def text (b : Bytes) : String :=
  String.ofList (encode b)

/-- The digits of a byte string behind `0x`. -/
def shown (b : Bytes) : String :=
  "0x" ++ text b

/-- The six blanks that may stand between two bytes. -/
def isBlank (c : Char) : Bool :=
  c = ' ' || ('\t' ≤ c && c ≤ '\r')

/-- Read pairs of digits, with blanks between them. -/
def decode : List Char → Option Bytes
  | [] => some []
  | [c] => if isBlank c then some [] else none
  | c :: d :: rest =>
    if isBlank c then decode (d :: rest)
    else do
      let high ← value? c
      let low ← value? d
      let bytes ← decode rest
      return (16 * high + low).toUInt8 :: bytes

/-- Drop one leading `0x` or `0X`. -/
def dropMarker : List Char → List Char
  | '0' :: 'x' :: rest => rest
  | '0' :: 'X' :: rest => rest
  | cs => cs

/-- Whether text starts with `0x` or `0X`. -/
def hasMarker : List Char → Bool
  | '0' :: 'x' :: _ => true
  | '0' :: 'X' :: _ => true
  | _ => false

/-- The lower-case digits of a number, without leading zeros; zero is a single digit. -/
def natural (n : Nat) : List Char :=
  Nat.toDigits 16 n

end ShardLedger.Hex
