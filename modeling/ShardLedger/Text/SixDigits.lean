import ShardLedger.Number.Binary64

/-!
# Six significant digits

Half of a whole number, written with at most six significant digits and no
trailing zeros: positional below a million, with an exponent from there on.
-/

namespace ShardLedger.Text

/-- The digits of a number without the zeros at its end. -/
def withoutTrailingZeros (n : Nat) : List Char :=
  ((Nat.toDigits 10 n).reverse.dropWhile (· = '0')).reverse

/-- Six digits and the power of ten they are scaled by, given a power to start from. -/
def scaleToSix (n : Nat) : Nat → Nat → Nat × Nat
  | 0, power => (roundDiv n (2 * Nat.pow 10 power), power)
  | fuel + 1, power =>
    let digits := roundDiv n (2 * Nat.pow 10 power)
    if digits < 1000000 then (digits, power) else scaleToSix n fuel (power + 1)

/-- `n / 2` in at most six significant digits. -/
def halfInSixDigits (n : Nat) : String :=
  if n < 200000 then
    if n % 2 = 0 then toString (n / 2) else s!"{n / 2}.5"
  else
    let (digits, power) := scaleToSix n (Nat.log2 n) 0
    if power = 0 then toString digits
    else
      let exponent := power + 5
      let shown := match withoutTrailingZeros digits with
        | first :: [] => [first]
        | first :: rest => first :: '.' :: rest
        | [] => ['0']
      let width := if exponent < 10 then "0" else ""
      s!"{String.ofList shown}e+{width}{exponent}"

end ShardLedger.Text
