import ShardLedger.Curve.Modular

/-!
# Elliptic curves

The curves `y² = x³ + b` over a prime field, with a base point of prime order.
Points are added by the chord and tangent rule, and multiplied by doubling and
adding.  Field elements are natural numbers below the size of the field.
-/

namespace ShardLedger

/-- The curve `y² = x³ + b` modulo `p`, and a base point of order `n`. -/
structure Curve where
  /-- The size of the field, a prime that leaves 3 modulo 4. -/
  p : Nat
  /-- The constant term. -/
  b : Nat
  /-- The order of the base point. -/
  n : Nat
  /-- The base point's first coordinate. -/
  baseX : Nat
  /-- The base point's second coordinate. -/
  baseY : Nat

/-- A point of a curve. -/
inductive Point where
  | infinity
  | affine (x y : Nat)
deriving DecidableEq

namespace Curve

/-- The base point. -/
def base (c : Curve) : Point :=
  .affine c.baseX c.baseY

/-- The value of `x³ + b`. -/
def cubic (c : Curve) (x : Nat) : Nat :=
  (x * x % c.p * x + c.b) % c.p

/-- Whether a pair of field elements satisfies the equation of the curve. -/
def contains (c : Curve) (x y : Nat) : Bool :=
  x < c.p && y < c.p && y * y % c.p == c.cubic x

/-- The reflection of a point in the first axis. -/
def neg (c : Curve) : Point → Point
  | .infinity => .infinity
  | .affine x y => .affine x ((c.p - y) % c.p)

/-- The third point on the line of the given slope through a point, reflected; `x2` is the first
coordinate of the second point on it. -/
def chord (c : Curve) (slope x1 y1 x2 : Nat) : Point :=
  let x3 := Modular.sub c.p (Modular.sub c.p (slope * slope) x1) x2
  .affine x3 (Modular.sub c.p (slope * Modular.sub c.p x1 x3) y1)

/-- The sum of two points. -/
def add (c : Curve) : Point → Point → Point
  | .infinity, q => q
  | p, .infinity => p
  | .affine x1 y1, .affine x2 y2 =>
    if x1 = x2 then
      if (y1 + y2) % c.p = 0 then .infinity
      else c.chord (3 * (x1 * x1) * Modular.inverse c.p (2 * y1) % c.p) x1 y1 x1
    else
      let rise := Modular.sub c.p y2 y1
      let run := Modular.sub c.p x2 x1
      c.chord (rise * Modular.inverse c.p run % c.p) x1 y1 x2

/-- The sum of `k` copies of a point. -/
def mul (c : Curve) (k : Nat) (point : Point) : Point :=
  if k = 0 then .infinity
  else
    let rest := mul c (k / 2) (c.add point point)
    if k % 2 = 0 then rest else c.add point rest
termination_by k

/-- The even square root of `x³ + b`, if it is a square. -/
def evenRoot? (c : Curve) (x : Nat) : Option Nat :=
  let square := c.cubic x
  let root := Modular.power c.p square ((c.p + 1) / 4)
  if root * root % c.p = square then
    some (if root % 2 = 0 then root else c.p - root)
  else none

end Curve

/-- The curve secp256k1. -/
def secp256k1 : Curve where
  p := 0xfffffffffffffffffffffffffffffffffffffffffffffffffffffffefffffc2f
  b := 7
  n := 0xfffffffffffffffffffffffffffffffebaaedce6af48a03bbfd25e8cd0364141
  baseX := 0x79be667ef9dcbbac55a06295ce870b07029bfcdb2dce28d959f2815b16f81798
  baseY := 0x483ada7726a3c4655da4fbfc0e1108a8fd17b448a68554199c47d08ffb10d4b8

end ShardLedger
