import Mathlib.Algebra.Field.ZMod
import Mathlib.Data.ZMod.Basic
import Mathlib.Tactic.Ring
import ShardLedger.Curve.Modular

/-!
# Arithmetic modulo a number, in the ring of residues

What repeated squaring, Euclid's algorithm and modular subtraction compute, read in the
ring of residues: powers, inverses and differences.
-/

namespace ShardLedger.Modular

theorem power_eq (m base exponent : Nat) : power m base exponent = base ^ exponent % m := by
  fun_induction power m base exponent with
  | case1 base => rw [pow_zero]
  | case2 base exponent hpos half heven ih =>
      have hexponent : 2 * (exponent / 2) = exponent := by omega
      have hhalf : half = base ^ exponent % m := by
        rw [← hexponent, pow_mul, pow_two, Nat.pow_mod, ← ih]
      exact hhalf
  | case3 base exponent hpos half hodd ih =>
      have hexponent : 2 * (exponent / 2) + 1 = exponent := by omega
      have hhalf : half = base ^ (2 * (exponent / 2)) % m := by
        rw [pow_mul, pow_two, Nat.pow_mod, ← ih]
      rw [hhalf, Nat.mul_mod_mod, ← pow_succ', hexponent]

/-- Euclid's algorithm keeps both remainders multiples of the number whose coefficients it
carries along. -/
theorem lastCoefficient_mul {m : Nat} {a : ZMod m} (r0 r1 : Nat) (t0 t1 : Int)
    (h0 : (t0 : ZMod m) * a = r0) (h1 : (t1 : ZMod m) * a = r1) :
    (lastCoefficient r0 r1 t0 t1 : ZMod m) * a = Nat.gcd r0 r1 := by
  fun_induction lastCoefficient r0 r1 t0 t1 with
  | case1 r0 t0 t1 => rw [h0, Nat.gcd_zero_right]
  | case2 r0 r1 t0 t1 hr1 ih =>
      have hnext : ((t0 - (r0 / r1 : Nat) * t1 : Int) : ZMod m) * a = (r0 % r1 : Nat) := by
        have hdivision : (r0 : ZMod m) = r1 * (r0 / r1 : Nat) + (r0 % r1 : Nat) := by
          rw [← Nat.cast_mul, ← Nat.cast_add, Nat.div_add_mod]
        rw [Int.cast_sub, Int.cast_mul, Int.cast_natCast, sub_mul, mul_assoc, h0, h1, hdivision]
        ring
      rw [ih h1 hnext, Nat.gcd_comm r0 r1, Nat.gcd_rec r1 r0, Nat.gcd_comm]

theorem inverse_mul {m : Nat} (hm : 0 < m) (a : Nat) :
    (inverse m a : ZMod m) * a = Nat.gcd m a := by
  have hmultiple : (lastCoefficient m (a % m) 0 1 : ZMod m) * a = Nat.gcd m (a % m) :=
    lastCoefficient_mul m (a % m) 0 1 (by simp) (by simp)
  have hnonneg : 0 ≤ lastCoefficient m (a % m) 0 1 % m := Int.emod_nonneg _ (by omega)
  have hcast : (inverse m a : ZMod m) = (lastCoefficient m (a % m) 0 1 : ZMod m) := by
    rw [inverse, ← Int.cast_natCast, Int.toNat_of_nonneg hnonneg, ZMod.intCast_mod]
  rw [hcast, hmultiple, Nat.gcd_comm m (a % m), ← Nat.gcd_rec]

theorem inverse_mul_of_coprime {m a : Nat} (hm : 0 < m) (hcoprime : Nat.Coprime m a) :
    (inverse m a : ZMod m) * a = 1 := by
  rw [inverse_mul hm, hcoprime.gcd_eq_one, Nat.cast_one]

/-- Modulo a prime, the inverse of a number that is not divisible is the inverse of the field. -/
theorem cast_inverse {p : Nat} [Fact p.Prime] {a : Nat} (ha : (a : ZMod p) ≠ 0) :
    (inverse p a : ZMod p) = (a : ZMod p)⁻¹ := by
  have hprime : p.Prime := Fact.out
  have hcoprime : Nat.Coprime p a := by
    rw [hprime.coprime_iff_not_dvd, ← ZMod.natCast_eq_zero_iff]
    exact ha
  exact eq_inv_of_mul_eq_one_left (inverse_mul_of_coprime hprime.pos hcoprime)

theorem cast_sub {m a b : Nat} (hb : b ≤ m) : (sub m a b : ZMod m) = a - b := by
  rw [sub, ZMod.natCast_mod, Nat.cast_add, Nat.cast_sub hb, ZMod.natCast_self]
  ring

theorem sub_eq_val {m a b : Nat} [NeZero m] (hb : b ≤ m) :
    sub m a b = ((a : ZMod m) - b).val := by
  have hlt : sub m a b < m := Nat.mod_lt _ (NeZero.pos m)
  rw [← cast_sub hb, ZMod.val_natCast_of_lt hlt]

end ShardLedger.Modular
