import ShardLedger.Bytes.Hex
import ShardLedger.Text.Digit

/-!
# Numerals

Whole numbers as people write them: blanks around the numeral, a sign in front of
a decimal one, single underscores between digits, and the digits of any script.
A hexadecimal numeral carries the marker `0x` and no sign.  Decimal numerals of
more than 4300 digits are neither read nor written.
-/

namespace ShardLedger.Text.Numeral

/-- The longest decimal numeral that is read or written, in digits. -/
def digitLimit : Nat := 4300

/-- Digits after the first one, with the value and the count of those already read. -/
def continueDigits (base : Nat) (value? : Char → Option Nat) :
    Nat → Nat → List Char → Option (Nat × Nat)
  | value, count, [] => some (value, count)
  | value, count, '_' :: c :: rest => do
    let d ← value? c
    continueDigits base value? (value * base + d) (count + 1) rest
  | value, count, c :: rest => do
    let d ← value? c
    continueDigits base value? (value * base + d) (count + 1) rest

/-- The value of a run of digits and how many there are. -/
def digits? (base : Nat) (value? : Char → Option Nat) : List Char → Option (Nat × Nat)
  | [] => none
  | c :: rest => do
    let d ← value? c
    continueDigits base value? d 1 rest

/-- Text without the blanks at its end. -/
def trimEnd (cs : List Char) : List Char :=
  (cs.reverse.dropWhile isBlank).reverse

/-- Text without the blanks around it. -/
def trim (cs : List Char) : List Char :=
  trimEnd (cs.dropWhile isBlank)

/-- The value of a decimal numeral without blanks or sign. -/
def unsigned? (cs : List Char) : Option Nat := do
  let (value, count) ← digits? 10 digitValue? cs
  if count ≤ digitLimit then some value else none

/-- The value of a decimal numeral. -/
def decimal? (cs : List Char) : Option Int :=
  match trim cs with
  | '-' :: rest => (unsigned? rest).map fun n => -(n : Int)
  | '+' :: rest => (unsigned? rest).map fun n => (n : Int)
  | rest => (unsigned? rest).map fun n => (n : Int)

/-- The value of a hexadecimal digit: a decimal digit of any script or an ASCII letter. -/
def hexValue? (c : Char) : Option Nat :=
  (digitValue? c).orElse fun _ => Hex.value? c

/-- The value of a hexadecimal numeral whose marker has been dropped.  One underscore may follow
the marker. -/
def hexadecimal? (cs : List Char) : Option Int :=
  let digits := match trimEnd cs with
    | '_' :: rest => rest
    | rest => rest
  (digits? 16 hexValue? digits).map fun (value, _) => (value : Int)

/-- The value of a numeral, which is hexadecimal when it starts with the marker. -/
def parse? (s : String) : Option Int :=
  let cs := s.toList
  if Hex.hasMarker cs then hexadecimal? (Hex.dropMarker cs) else decimal? cs

/-- Whether the decimal numeral of a number is short enough to be written. -/
def isWritable (n : Int) : Bool :=
  n.natAbs < Nat.pow 10 digitLimit

end ShardLedger.Text.Numeral
