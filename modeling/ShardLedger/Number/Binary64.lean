/-!
# Floating-point numbers

Numbers with a fraction or an exponent are read as the nearest binary
floating-point number with a 53-bit significand, and written with the fewest
decimal digits that read back as the same number.  Everything is computed on
natural numbers: a finite number is `significand * 2 ^ exponent` up to sign.
-/

namespace ShardLedger

/-- The nearest whole number to a quotient; a tie goes to the even neighbour. -/
def roundDiv (numerator denominator : Nat) : Nat :=
  let quotient := numerator / denominator
  let twice := 2 * (numerator % denominator)
  if twice < denominator ∨ (twice = denominator ∧ quotient % 2 = 0) then quotient
  else quotient + 1

/-- A binary floating-point number. -/
inductive Binary64 where
  /-- `significand * 2 ^ exponent`, negated if `negative`. -/
  | finite (negative : Bool) (significand : Nat) (exponent : Int)
  /-- A number beyond the largest finite one. -/
  | infinite (negative : Bool)
  /-- What is not a number. -/
  | nan
deriving DecidableEq

namespace Binary64

/-- The least significand of a number that is not tiny, `2 ^ 52`. -/
def leastSignificand : Nat := 0x10000000000000

/-- The numerator and denominator of `n * base ^ exponent`. -/
def scale (n base : Nat) (exponent : Int) : Nat × Nat :=
  if 0 ≤ exponent then (n * base.pow exponent.toNat, 1) else (n, base.pow (-exponent).toNat)

/-- The exponent of the floating-point numbers around a positive quotient. -/
def exponentAt (numerator denominator : Nat) : Int :=
  let guess : Int := (Nat.log2 numerator : Int) - Nat.log2 denominator - 52
  let (scaled, unit) := scale denominator 2 guess
  let fits := leastSignificand * scaled ≤ numerator * unit
  max (if fits then guess else guess - 1) (-1074)

/-- The floating-point number nearest to a quotient. -/
def ofQuotient (negative : Bool) (numerator denominator : Nat) : Binary64 :=
  if numerator = 0 then .finite negative 0 0
  else
    let exponent := exponentAt numerator denominator
    let (scaled, unit) := scale denominator 2 exponent
    let significand := roundDiv (numerator * unit) scaled
    let (significand, exponent) :=
      if significand = 2 * leastSignificand then (leastSignificand, exponent + 1)
      else (significand, exponent)
    if exponent > 971 then .infinite negative else .finite negative significand exponent

/-- The floating-point number nearest to `digits * 10 ^ exponent`. -/
def ofDecimal (negative : Bool) (digits : Nat) (exponent : Int) : Binary64 :=
  let size := (Nat.toDigits 10 digits).length
  if digits = 0 ∨ exponent + size < -400 then .finite negative 0 0
  else if exponent + size > 400 then .infinite negative
  else
    let (numerator, denominator) := scale digits 10 exponent
    ofQuotient negative numerator denominator

/-- The whole number that a floating-point number equals, if it equals one. -/
def toInt? : Binary64 → Option Int
  | .infinite _ | .nan => none
  | .finite negative significand exponent =>
    let (numerator, denominator) := scale significand 2 exponent
    if numerator % denominator = 0 then
      let n : Int := (numerator / denominator : Nat)
      some (if negative then -n else n)
    else none

/-- Twice the ends of the interval of quotients that read back as a positive number, over `2 * unit`
half-steps: the lower end is nearer below a power of two. -/
def interval (significand : Nat) (exponent : Int) : Nat × Nat × Int :=
  if significand = leastSignificand ∧ exponent > -1074 then
    (4 * significand - 1, 4 * significand + 2, exponent - 2)
  else (4 * significand - 2, 4 * significand + 2, exponent - 2)

/-- The multiple of `10 ^ power` nearest to a positive number, if it reads back as that number. -/
def decimalAt? (significand : Nat) (exponent power : Int) : Option Nat :=
  let (low, high, quarter) := interval significand exponent
  let (binary, binaryUnit) := scale 1 2 quarter
  let (decimal, decimalUnit) := scale 1 10 power
  let num := binary * decimalUnit
  let den := binaryUnit * decimal
  let nearest := roundDiv (4 * significand * num) den
  let inside := fun n : Nat =>
    if significand % 2 = 0 then low * num ≤ n * den ∧ n * den ≤ high * num
    else low * num < n * den ∧ n * den < high * num
  if inside nearest then some nearest
  else
    let below := 4 * significand * num / den
    [below, below + 1].find? fun n => decide (inside n)

/-- Look for the coarsest power of ten, going down from `power`. -/
def searchDecimal (significand : Nat) (exponent : Int) : Nat → Int → Nat × Int
  | 0, power => (0, power)
  | fuel + 1, power =>
    match decimalAt? significand exponent power with
    | some digits => if digits = 0 then searchDecimal significand exponent fuel (power - 1)
      else (digits, power)
    | none => searchDecimal significand exponent fuel (power - 1)

/-- The fewest decimal digits that read back as a positive number, and their power of ten. -/
def shortest (significand : Nat) (exponent : Int) : Nat × Int :=
  let top : Int := if 0 ≤ exponent then 310 else 18
  searchDecimal significand exponent 700 top

/-- Decimal digits around their point: positional between `1e-4` and `1e16`. -/
def layout (digits : List Char) (power : Int) : String :=
  let point := (digits.length : Int) + power
  let text := String.ofList
  if -4 < point ∧ point ≤ 16 then
    if point ≤ 0 then "0." ++ text (List.replicate (-point).toNat '0' ++ digits)
    else
      let whole := digits.take point.toNat
      let zeros := List.replicate (point.toNat - digits.length) '0'
      let fraction := digits.drop point.toNat
      text (whole ++ zeros) ++ "." ++ (if fraction.isEmpty then "0" else text fraction)
  else
    let exponent := point - 1
    let first := text (digits.take 1)
    let fraction := digits.drop 1
    let shown := if fraction.isEmpty then first else first ++ "." ++ text fraction
    let size := toString exponent.natAbs
    let mark := if exponent < 0 then "e-" else "e+"
    shown ++ mark ++ (if size.length < 2 then "0" ++ size else size)

/-- The decimal text of a floating-point number. -/
def toText : Binary64 → String
  | .infinite negative => if negative then "-inf" else "inf"
  | .nan => "nan"
  | .finite negative significand exponent =>
    let body :=
      if significand = 0 then "0.0"
      else
        let (digits, power) := shortest significand exponent
        layout (Nat.toDigits 10 digits) power
    if negative then "-" ++ body else body

end Binary64

end ShardLedger
