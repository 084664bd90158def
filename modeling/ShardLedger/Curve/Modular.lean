/-!
# Arithmetic modulo a number

Powers by repeated squaring, and inverses by Euclid's algorithm: while the
remainders of a modulus and a number shrink to their greatest common divisor, the
coefficient of the number is carried along.
-/

namespace ShardLedger.Modular

/-- `base ^ exponent` modulo `m`. -/
def power (m base exponent : Nat) : Nat :=
  if exponent = 0 then 1 % m
  else
    let half := power m (base * base % m) (exponent / 2)
    if exponent % 2 = 0 then half else base * half % m
termination_by exponent

/-- The coefficient that belongs to the last remainder above zero, given two successive remainders
and their coefficients. -/
def lastCoefficient (r0 r1 : Nat) (t0 t1 : Int) : Int :=
  if r1 = 0 then t0 else lastCoefficient r1 (r0 % r1) t1 (t0 - (r0 / r1 : Nat) * t1)
termination_by r1
decreasing_by exact Nat.mod_lt _ (Nat.pos_of_ne_zero (by assumption))

/-- The inverse of a number that has no common divisor with `m`. -/
def inverse (m a : Nat) : Nat :=
  (lastCoefficient m (a % m) 0 1 % m).toNat

/-- The difference of two numbers below `m`, modulo `m`. -/
def sub (m a b : Nat) : Nat :=
  (a + (m - b)) % m

end ShardLedger.Modular
