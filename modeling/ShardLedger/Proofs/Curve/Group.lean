import Mathlib.AlgebraicGeometry.EllipticCurve.Affine.Point
import ShardLedger.Curve.Ecdsa
import ShardLedger.Proofs.Curve.Modular

/-!
# The points of a curve form a group

A curve whose field size is prime is a Weierstrass curve over the field of residues.  Its
points are written down with natural numbers for coordinates, and the sum, the negative
and the multiples of what is written down are those of the group.
-/

namespace ShardLedger.Curve

open WeierstrassCurve.Affine

/-- The curve over the field of residues. -/
def overField (c : Curve) : WeierstrassCurve.Affine (ZMod c.p) where
  a₁ := 0
  a₂ := 0
  a₃ := 0
  a₄ := 0
  a₆ := c.b

/-- A point of the group, written with natural numbers below the size of the field. -/
def written (c : Curve) : c.overField.Point → ShardLedger.Point
  | .zero => .infinity
  | .some x y _ => .affine x.val y.val

@[simp]
theorem written_zero (c : Curve) : c.written 0 = .infinity := rfl

section

variable (c : Curve) [Fact c.p.Prime]

theorem written_injective : Function.Injective c.written := by
  intro P Q hsame
  match P, Q with
  | .zero, .zero => rfl
  | .zero, .some _ _ _ => cases hsame
  | .some _ _ _, .zero => cases hsame
  | .some x y hP, .some x' y' hQ =>
      rw [written, written, ShardLedger.Point.affine.injEq] at hsame
      obtain rfl := ZMod.val_injective c.p hsame.1
      obtain rfl := ZMod.val_injective c.p hsame.2
      rfl

theorem written_eq_infinity_iff {P : c.overField.Point} : c.written P = .infinity ↔ P = 0 := by
  rw [← written_zero, c.written_injective.eq_iff]

/-- The equation, in the field of residues. -/
theorem equation_iff_cast {x y : ZMod c.p} :
    c.overField.Equation x y ↔ y * y = x * x * x + c.b := by
  rw [equation_iff]
  simp only [overField]
  ring_nf

/-- The field elements of a point on the curve make a point of the group. -/
theorem exists_written [c.overField.IsElliptic] {x y : Nat} (hpoint : c.contains x y = true) :
    ∃ P, c.written P = .affine x y := by
  simp only [contains, cubic, Bool.and_eq_true, decide_eq_true_eq, beq_iff_eq] at hpoint
  obtain ⟨⟨hx, hy⟩, hequation⟩ := hpoint
  have hcast : (y : ZMod c.p) * y = x * x * x + c.b := by
    have hresidue := congrArg (Nat.cast (R := ZMod c.p)) hequation
    simpa using hresidue
  have hnonsingular : c.overField.Nonsingular (x : ZMod c.p) y :=
    equation_iff_nonsingular.mp ((c.equation_iff_cast).mpr hcast)
  refine ⟨.some _ _ hnonsingular, ?_⟩
  rw [written, ZMod.val_natCast_of_lt hx, ZMod.val_natCast_of_lt hy]

/-- What is written down with coordinates has them for its field elements. -/
theorem exists_of_written {P : c.overField.Point} {x y : Nat} (hP : c.written P = .affine x y) :
    ∃ h, P = .some (x : ZMod c.p) (y : ZMod c.p) h ∧ x < c.p ∧ y < c.p := by
  cases P with
  | zero => cases hP
  | some x' y' h =>
      cases hP
      simp only [ZMod.natCast_zmod_val, true_and, exists_prop]
      exact ⟨h, x'.val_lt, y'.val_lt⟩

/-! ## Operations -/

theorem negY_overField (x y : ZMod c.p) : c.overField.negY x y = -y := by
  simp [negY, overField]

theorem addX_overField (x1 x2 slope : ZMod c.p) :
    c.overField.addX x1 x2 slope = slope * slope - x1 - x2 := by
  simp only [addX, overField]
  ring

theorem addY_overField (x1 x2 y1 slope : ZMod c.p) :
    c.overField.addY x1 x2 y1 slope = slope * (x1 - c.overField.addX x1 x2 slope) - y1 := by
  rw [addY, negAddY, negY_overField]
  ring

theorem neg_written (P : c.overField.Point) : c.neg (c.written P) = c.written (-P) := by
  cases P with
  | zero => rfl
  | some x y h => rw [Point.neg_some, written, written, neg, negY_overField, ZMod.neg_val']

theorem chord_val (slope x1 y1 x2 : ZMod c.p) :
    c.chord slope.val x1.val y1.val x2.val =
      .affine (c.overField.addX x1 x2 slope).val (c.overField.addY x1 x2 y1 slope).val := by
  have hx : Modular.sub c.p (Modular.sub c.p (slope.val * slope.val) x1.val) x2.val =
      (c.overField.addX x1 x2 slope).val := by
    rw [Modular.sub_eq_val x2.val_lt.le, Modular.sub_eq_val x1.val_lt.le, addX_overField]
    simp only [Nat.cast_mul, ZMod.natCast_zmod_val]
  simp only [chord, hx]
  rw [Modular.sub_eq_val y1.val_lt.le, Modular.sub_eq_val (ZMod.val_lt _).le, addY_overField]
  simp only [Nat.cast_mul, ZMod.natCast_zmod_val]

/-- The slope of the tangent at a point that is not its own negative. -/
theorem tangent_val {x y : ZMod c.p} (hy : y ≠ c.overField.negY x y) :
    3 * (x.val * x.val) * Modular.inverse c.p (2 * y.val) % c.p =
      (c.overField.slope x x y y).val := by
  have hdouble : ((2 * y.val : Nat) : ZMod c.p) = y - c.overField.negY x y := by
    rw [Nat.cast_mul, ZMod.natCast_zmod_val, negY_overField]
    ring
  have hne : ((2 * y.val : Nat) : ZMod c.p) ≠ 0 := by
    rw [hdouble]
    exact sub_ne_zero.mpr hy
  have hslope : c.overField.slope x x y y = 3 * (x * x) * (y - c.overField.negY x y)⁻¹ := by
    rw [slope_of_Y_ne rfl hy, div_eq_mul_inv]
    simp only [overField]
    ring
  rw [← ZMod.val_natCast, Nat.cast_mul, Modular.cast_inverse hne, hdouble, hslope]
  simp

/-- The slope of the line through two points. -/
theorem secant_val {x1 y1 x2 y2 : ZMod c.p} (hx : x1 ≠ x2) :
    Modular.sub c.p y2.val y1.val * Modular.inverse c.p (Modular.sub c.p x2.val x1.val) % c.p =
      (c.overField.slope x1 x2 y1 y2).val := by
  have hrun : ((Modular.sub c.p x2.val x1.val : Nat) : ZMod c.p) = x2 - x1 := by
    rw [Modular.cast_sub x1.val_lt.le, ZMod.natCast_zmod_val, ZMod.natCast_zmod_val]
  have hne : ((Modular.sub c.p x2.val x1.val : Nat) : ZMod c.p) ≠ 0 := by
    rw [hrun]
    exact sub_ne_zero.mpr hx.symm
  have hslope : c.overField.slope x1 x2 y1 y2 = (y2 - y1) * (x2 - x1)⁻¹ := by
    rw [slope_of_X_ne hx, ← neg_sub x2 x1, ← neg_sub y2 y1, neg_div_neg_eq, div_eq_mul_inv]
  rw [← ZMod.val_natCast, Nat.cast_mul, Modular.cast_inverse hne, hrun,
    Modular.cast_sub y1.val_lt.le, ZMod.natCast_zmod_val, ZMod.natCast_zmod_val, hslope]

theorem add_written (P Q : c.overField.Point) :
    c.add (c.written P) (c.written Q) = c.written (P + Q) := by
  match P, Q with
  | .zero, Q =>
      rw [← Point.zero_def, zero_add]
      rfl
  | .some _ _ _, .zero =>
      rw [← Point.zero_def, add_zero]
      rfl
  | .some x1 y1 h1, .some x2 y2 h2 =>
      have hcancel : (y1.val + y2.val) % c.p = 0 ↔ y1 = c.overField.negY x2 y2 := by
        rw [negY_overField, ← ZMod.val_add, ZMod.val_eq_zero, add_eq_zero_iff_eq_neg]
      simp only [written, add, (ZMod.val_injective c.p).eq_iff, hcancel]
      by_cases hx : x1 = x2
      · subst hx
        by_cases hy : y1 = c.overField.negY x1 y2
        · rw [if_pos rfl, if_pos hy, Point.add_of_Y_eq rfl hy]
        · have hsame : y1 = y2 := Y_eq_of_Y_ne h1.1 h2.1 rfl hy
          subst hsame
          rw [if_pos rfl, if_neg hy, Point.add_of_Y_ne hy, tangent_val c hy, chord_val]
      · rw [if_neg hx, Point.add_of_X_ne hx, secant_val c hx, chord_val]

theorem mul_written (k : Nat) (P : c.overField.Point) :
    c.mul k (c.written P) = c.written (k • P) := by
  induction k using Nat.strongRecOn generalizing P with
  | ind k ih =>
      rw [mul]
      by_cases hk : k = 0
      · rw [if_pos hk, hk, zero_nsmul, written_zero]
      · have hhalf : c.mul (k / 2) (c.add (c.written P) (c.written P)) =
            c.written ((2 * (k / 2)) • P) := by
          rw [add_written, ih (k / 2) (Nat.div_lt_self (Nat.pos_of_ne_zero hk) (by decide)),
            mul_comm, mul_nsmul', two_nsmul]
        simp only [if_neg hk, hhalf]
        by_cases heven : k % 2 = 0
        · have hsplit : 2 * (k / 2) = k := by omega
          rw [if_pos heven, hsplit]
        · have hsplit : 2 * (k / 2) + 1 = k := by omega
          rw [if_neg heven, add_written, ← succ_nsmul', hsplit]

end

end ShardLedger.Curve
