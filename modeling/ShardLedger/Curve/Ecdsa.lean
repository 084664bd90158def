import ShardLedger.Curve.Basic

/-!
# Signature equations

Signing, verifying and key recovery on a curve, for scalars and points.  A signature
`(r, s)` over the number `e` belongs to the public point `Q` when `r` is the first
coordinate of `s⁻¹(eG + rQ)`.  Recovery turns this around: it lifts `r` to the two
points with that first coordinate and solves for `Q`.
-/

namespace ShardLedger.Curve

/-- The public point of a signature over `e`, if `r` came from the point `lifted`:
`r⁻¹(s · lifted - eG)`. -/
def solve (c : Curve) (e r s : Nat) (lifted : Point) : Point :=
  c.mul (Modular.inverse c.n r) (c.add (c.mul s lifted) (c.neg (c.mul (e % c.n) c.base)))

/-- Whether `(r, s)` signs `e` for a public point; nothing at infinity. -/
def verifies? (c : Curve) (e r s : Nat) (key : Point) : Option Bool :=
  let w := Modular.inverse c.n s
  match c.add (c.mul (e * w % c.n) c.base) (c.mul (r * w % c.n) key) with
  | .infinity => none
  | .affine x _ => some (x % c.n == r)

/-- The scalars of a signature over `e` with a secret and a nonce; nothing if either is zero. -/
def signWith? (c : Curve) (e secret nonce : Nat) : Option (Nat × Nat) :=
  match c.mul nonce c.base with
  | .infinity => none
  | .affine x _ =>
    let r := x % c.n
    let s := Modular.inverse c.n nonce * (e + secret * r) % c.n
    if r = 0 ∨ s = 0 then none else some (r, s)

end ShardLedger.Curve
