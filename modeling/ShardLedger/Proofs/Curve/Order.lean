import Mathlib.GroupTheory.Perm.Cycle.Type
import Mathlib.FieldTheory.Finite.Basic
import ShardLedger.Proofs.Curve.Prime
import ShardLedger.Proofs.Curve.Scaled

/-!
# The group of the curve has prime order

Two points share a first coordinate at most, so that the group has at most `2p + 1` points.
The base point has the prime order `n`, and no point is its own negative: the group has
exactly `n` points, and every point other than the one at infinity generates it.
-/

namespace ShardLedger

namespace Curve

open WeierstrassCurve.Affine

variable (c : Curve) [Fact c.p.Prime]

/-- The first coordinate of a point, and whether the second one is odd. -/
def compressed : c.overField.Point → Option (ZMod c.p × Bool)
  | .zero => none
  | .some x y _ => some (x, y.val % 2 == 1)

theorem compressed_injective (hodd : c.p % 2 = 1) : Function.Injective c.compressed := by
  intro P Q hsame
  match P, Q with
  | .zero, .zero => rfl
  | .zero, .some _ _ _ => cases hsame
  | .some _ _ _, .zero => cases hsame
  | .some x y hP, .some x' y' hQ =>
      simp only [compressed, Option.some.injEq, Prod.mk.injEq] at hsame
      obtain ⟨rfl, hparity⟩ := hsame
      have hy : y = y' := by
        rcases Y_eq_of_X_eq hP.1 hQ.1 rfl with hy | hy
        · exact hy
        · rw [negY_overField] at hy
          by_cases hzero : y' = 0
          · rw [hy, hzero, neg_zero]
          · -- The negative has the other parity, because the size of the field is odd.
            have hval : y.val + y'.val = c.p := by
              have : NeZero y' := ⟨hzero⟩
              have hlt := y'.val_lt
              rw [hy, ZMod.val_neg_of_ne_zero]
              omega
            have hparity' : y.val % 2 = 1 ↔ y'.val % 2 = 1 := by
              simpa using hparity
            omega
      subst hy
      rfl

theorem finite_points (hodd : c.p % 2 = 1) : Finite c.overField.Point :=
  Finite.of_injective c.compressed (c.compressed_injective hodd)

theorem natCard_le (hodd : c.p % 2 = 1) : Nat.card c.overField.Point ≤ 2 * c.p + 1 := by
  have hle := Nat.card_le_card_of_injective c.compressed (c.compressed_injective hodd)
  have hcard : Nat.card (Option (ZMod c.p × Bool)) = 2 * c.p + 1 := by
    rw [Nat.card_eq_fintype_card, Fintype.card_option, Fintype.card_prod, ZMod.card,
      Fintype.card_bool, mul_comm]
  rw [hcard] at hle
  exact hle

theorem discriminant_overField : c.overField.Δ = -((432 * c.b ^ 2 : Nat) : ZMod c.p) := by
  simp only [WeierstrassCurve.Δ, WeierstrassCurve.b₂, WeierstrassCurve.b₄, WeierstrassCurve.b₆,
    WeierstrassCurve.b₈, overField]
  push_cast
  ring

end Curve

namespace Secp256k1

open WeierstrassCurve.Affine

instance : Fact secp256k1.p.Prime := ⟨prime_p⟩

instance : Fact secp256k1.n.Prime := ⟨prime_n⟩

/-- The equation of the curve has no double root. -/
instance : secp256k1.overField.IsElliptic where
  isUnit := by
    have hdivides : ¬secp256k1.p ∣ 432 * secp256k1.b ^ 2 :=
      Nat.not_dvd_of_pos_of_lt (by decide) (by decide)
    rw [Curve.discriminant_overField, isUnit_iff_ne_zero, neg_ne_zero, ne_eq,
      ZMod.natCast_eq_zero_iff]
    exact hdivides

/-- The base point has the order that is named for it. -/
theorem exists_generator :
    ∃ G, secp256k1.written G = secp256k1.base ∧ addOrderOf G = secp256k1.n := by
  obtain ⟨G, hG⟩ : ∃ G, secp256k1.written G = secp256k1.base :=
    secp256k1.exists_written (by decide +kernel)
  -- The last multiple before the order is the negative of the base point.
  have hends : secp256k1.endsAt (secp256k1.n - 1) 255 secp256k1.baseX
      (secp256k1.p - secp256k1.baseY) = true := by decide +kernel
  have hzero : secp256k1.n • G = 0 := by
    obtain ⟨h, hlast⟩ := Curve.exists_nsmul_eq hG (by decide) hends
    obtain ⟨hg, rfl, -, -⟩ := secp256k1.exists_of_written hG
    have hnegative : ((secp256k1.p - secp256k1.baseY : Nat) : ZMod secp256k1.p) =
        secp256k1.overField.negY secp256k1.baseX secp256k1.baseY := by
      rw [Curve.negY_overField, Nat.cast_sub (by decide), ZMod.natCast_self, zero_sub]
    have hsucc : secp256k1.n = secp256k1.n - 1 + 1 := by decide
    rw [hsucc, succ_nsmul, hlast]
    exact Point.add_of_Y_eq rfl hnegative
  have hne : G ≠ 0 := by
    rintro rfl
    cases hG
  exact ⟨G, hG, addOrderOf_eq_prime hzero hne⟩

/-! ## No point is its own negative -/

/-- The constant term is not the negative of a cube: it is no cubic residue. -/
theorem cube_add_ne_zero (x : ZMod secp256k1.p) : x * x * x + secp256k1.b ≠ 0 := by
  intro hroot
  have hconstant : (secp256k1.p - 7 : Nat) = x ^ 3 := by
    have hseven : (secp256k1.b : ZMod secp256k1.p) = 7 := rfl
    rw [Nat.cast_sub (by decide), ZMod.natCast_self]
    linear_combination -hroot + hseven
  have hx : x ≠ 0 := by
    rintro rfl
    have hdvd : secp256k1.p ∣ secp256k1.p - 7 := by
      rw [← ZMod.natCast_eq_zero_iff, hconstant, zero_pow three_ne_zero]
    exact Nat.not_dvd_of_pos_of_lt (by decide) (by decide) hdvd
  have hresidue : ((secp256k1.p - 7 : Nat) : ZMod secp256k1.p) ^ ((secp256k1.p - 1) / 3) = 1 := by
    have hthird : 3 * ((secp256k1.p - 1) / 3) = secp256k1.p - 1 := by decide
    rw [hconstant, ← pow_mul, hthird, ZMod.pow_card_sub_one_eq_one hx]
  have hnot : Modular.power secp256k1.p (secp256k1.p - 7) ((secp256k1.p - 1) / 3) ≠ 1 := by
    decide +kernel
  exact hnot ((PrimeCertificate.pow_eq_one_iff prime_p.one_lt _ _).mp hresidue)

theorem two_nsmul_ne_zero {P : secp256k1.overField.Point} (hP : P ≠ 0) : 2 • P ≠ 0 := by
  intro htwice
  cases P with
  | zero => exact hP rfl
  | some x y h =>
      rw [two_nsmul, add_eq_zero_iff_eq_neg, Point.neg_some, Point.some.injEq,
        Curve.negY_overField] at htwice
      have hy : y = 0 := by
        have htwo : (2 : ZMod secp256k1.p) ≠ 0 := by
          have hndvd : ¬secp256k1.p ∣ 2 := Nat.not_dvd_of_pos_of_lt (by decide) (by decide)
          rwa [← Nat.cast_ofNat, ne_eq, ZMod.natCast_eq_zero_iff]
        have hsum : 2 * y = 0 := by
          linear_combination htwice.2
        exact (mul_eq_zero.mp hsum).resolve_left htwo
      have hequation := (secp256k1.equation_iff_cast).mp h.1
      rw [hy, zero_mul] at hequation
      exact cube_add_ne_zero x hequation.symm

/-! ## The order -/

theorem natCard_point : Nat.card secp256k1.overField.Point = secp256k1.n := by
  have hodd : secp256k1.p % 2 = 1 := by decide
  obtain ⟨G, -, horder⟩ := exists_generator
  have : Finite secp256k1.overField.Point := secp256k1.finite_points hodd
  obtain ⟨k, hk⟩ : secp256k1.n ∣ Nat.card secp256k1.overField.Point :=
    horder ▸ addOrderOf_dvd_natCard G
  have hpos : 0 < Nat.card secp256k1.overField.Point := Nat.card_pos
  have hle := secp256k1.natCard_le hodd
  have hthird : 2 * secp256k1.p + 1 < secp256k1.n * 3 := by decide
  have hlt : k < 3 := by
    rw [hk] at hle
    exact Nat.lt_of_mul_lt_mul_left (hle.trans_lt hthird)
  have hzero : k ≠ 0 := by
    rintro rfl
    omega
  have htwo : k ≠ 2 := by
    rintro rfl
    have : Fact (Nat.Prime 2) := ⟨Nat.prime_two⟩
    obtain ⟨P, hP⟩ := exists_prime_addOrderOf_dvd_card' 2 (Dvd.intro_left _ hk.symm)
    have hne : P ≠ 0 := by
      rintro rfl
      rw [addOrderOf_zero] at hP
      omega
    exact two_nsmul_ne_zero hne (hP ▸ addOrderOf_nsmul_eq_zero P)
  have hone : k = 1 := by omega
  rw [hk, hone, mul_one]

theorem addOrderOf_eq {P : secp256k1.overField.Point} (hP : P ≠ 0) :
    addOrderOf P = secp256k1.n := by
  have hzero : secp256k1.n • P = 0 := by
    rw [← natCard_point]
    exact card_nsmul_eq_zero'
  exact addOrderOf_eq_prime hzero hP

theorem nsmul_eq_zero_iff {P : secp256k1.overField.Point} (hP : P ≠ 0) (k : Nat) :
    k • P = 0 ↔ secp256k1.n ∣ k := by
  rw [← addOrderOf_dvd_iff_nsmul_eq_zero, addOrderOf_eq hP]

end Secp256k1

end ShardLedger
