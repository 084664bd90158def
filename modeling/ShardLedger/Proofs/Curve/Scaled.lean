import Mathlib.Tactic.LinearCombination
import ShardLedger.Proofs.Curve.Group

/-!
# Multiples without division

A point can be held as `x·z²` and `y·z³` together with a scale `z`.  Doubling such a point
and adding the base point to it take products only, so that long multiples are quick to
check.  As long as the scale does not vanish, the result stands for the multiple.
-/

namespace ShardLedger

/-- The coordinates of a point, multiplied by powers of a scale. -/
structure Scaled where
  x : Nat
  y : Nat
  z : Nat

namespace Curve

open WeierstrassCurve.Affine

/-- Twice a scaled point. -/
def doubleScaled (c : Curve) (t : Scaled) : Scaled :=
  let m := 3 * (t.x * t.x)
  let s := 4 * t.x * (t.y * t.y) % c.p
  let x := Modular.sub c.p (Modular.sub c.p (m * m) s) s
  let y := Modular.sub c.p (m * Modular.sub c.p s x) (8 * (t.y * t.y) * (t.y * t.y) % c.p)
  ⟨x, y, 2 * t.y * t.z % c.p⟩

/-- The sum of a scaled point and the base point. -/
def addBase (c : Curve) (t : Scaled) : Scaled :=
  let rise := Modular.sub c.p (c.baseY * (t.z * t.z * t.z)) t.y
  let run := Modular.sub c.p (c.baseX * (t.z * t.z)) t.x
  let cube := run * run * run % c.p
  let v := t.x * (run * run) % c.p
  let x := Modular.sub c.p (Modular.sub c.p (Modular.sub c.p (rise * rise) cube) v) v
  let y := Modular.sub c.p (rise * Modular.sub c.p v x) (t.y * cube % c.p)
  ⟨x, y, run * t.z % c.p⟩

/-- Go on from the multiple by `k / 2 ^ i` to the multiple by `k`; nothing if the scale vanishes on
the way. -/
def climb (c : Curve) (k : Nat) : Nat → Scaled → Option Scaled
  | 0, t => some t
  | i + 1, t =>
    let double := c.doubleScaled t
    let next := if k / 2 ^ i % 2 = 1 then c.addBase double else double
    if next.z % c.p = 0 then none else climb c k i next

/-- Whether the climb to the multiple by `k`, which has `i + 1` binary digits, ends at the point
with given coordinates. -/
def endsAt (c : Curve) (k i x y : Nat) : Bool :=
  match c.climb k i ⟨c.baseX, c.baseY, 1⟩ with
  | none => false
  | some last => last.x % c.p == x * (last.z * last.z) % c.p &&
      last.y % c.p == y * (last.z * last.z * last.z) % c.p

variable {c : Curve} [Fact c.p.Prime]

/-- Scaled coordinates stand for two field elements. -/
structure Scales (t : Scaled) (x y : ZMod c.p) : Prop where
  x_eq : (t.x : ZMod c.p) = x * t.z ^ 2
  y_eq : (t.y : ZMod c.p) = y * t.z ^ 3
  z_ne : (t.z : ZMod c.p) ≠ 0
  x_le : t.x ≤ c.p
  y_le : t.y ≤ c.p

/-- Scaled coordinates stand for a point other than the one at infinity. -/
def StandsFor (t : Scaled) (P : c.overField.Point) : Prop :=
  ∃ x y h, P = .some x y h ∧ Scales t x y

omit [Fact c.p.Prime] in
theorem mod_le (hp : 0 < c.p) (a : Nat) : a % c.p ≤ c.p := (Nat.mod_lt a hp).le

/-! ## Doubling -/

theorem cast_doubleScaled (t : Scaled) :
    ((c.doubleScaled t).x : ZMod c.p) = 9 * t.x ^ 4 - 8 * t.x * t.y ^ 2 ∧
    ((c.doubleScaled t).y : ZMod c.p) =
      3 * t.x ^ 2 * (12 * t.x * t.y ^ 2 - 9 * t.x ^ 4) - 8 * t.y ^ 4 ∧
    ((c.doubleScaled t).z : ZMod c.p) = 2 * t.y * t.z := by
  have hmod : ∀ a, a % c.p ≤ c.p := mod_le (NeZero.pos c.p)
  have hsub : ∀ a b, Modular.sub c.p a b ≤ c.p := fun a b => hmod _
  refine ⟨?_, ?_, ?_⟩
  · simp only [doubleScaled, Modular.cast_sub, ZMod.natCast_mod, Nat.cast_mul, Nat.cast_ofNat, hmod]
    ring
  · simp only [doubleScaled, Modular.cast_sub, ZMod.natCast_mod, Nat.cast_mul, Nat.cast_ofNat, hmod,
      hsub]
    ring
  · simp only [doubleScaled, ZMod.natCast_mod, Nat.cast_mul, Nat.cast_ofNat]

theorem standsFor_doubleScaled {t : Scaled} {P : c.overField.Point} (ht : StandsFor t P)
    (hz : ((c.doubleScaled t).z : ZMod c.p) ≠ 0) : StandsFor (c.doubleScaled t) (P + P) := by
  obtain ⟨x, y, h, rfl, hx, hy, -, -, -⟩ := ht
  obtain ⟨hx', hy', hz'⟩ := cast_doubleScaled (c := c) t
  have hdouble : y - c.overField.negY x y ≠ 0 := by
    intro hzero
    apply hz
    rw [negY_overField] at hzero
    rw [hz', hy]
    linear_combination (t.z : ZMod c.p) ^ 4 * hzero
  have hne : y ≠ c.overField.negY x y := sub_ne_zero.mp hdouble
  have hslope : c.overField.slope x x y y * (2 * y) = 3 * x ^ 2 := by
    have hquotient := slope_of_Y_ne (W := c.overField) rfl hne
    rw [eq_div_iff hdouble, negY_overField] at hquotient
    simp only [overField] at hquotient ⊢
    linear_combination hquotient
  refine ⟨_, _, _, Point.add_self_of_Y_ne hne, ?_, ?_, hz, mod_le (NeZero.pos c.p) _,
    mod_le (NeZero.pos c.p) _⟩
  · rw [hx', hz', hx, hy, addX_overField]
    generalize c.overField.slope x x y y = slope at hslope
    linear_combination (-(t.z : ZMod c.p) ^ 8 * (3 * x ^ 2 + slope * (2 * y))) * hslope
  · rw [hy', hz', hx, hy, addY_overField, addX_overField]
    generalize c.overField.slope x x y y = slope at hslope
    linear_combination ((t.z : ZMod c.p) ^ 12 * ((slope * (2 * y)) ^ 2 +
      3 * x ^ 2 * (slope * (2 * y)) + 9 * x ^ 4 - 12 * x * y ^ 2)) * hslope

/-! ## Adding the base point -/

theorem cast_addBase {t : Scaled} (hx : t.x ≤ c.p) (hy : t.y ≤ c.p) :
    ((c.addBase t).x : ZMod c.p) = (c.baseY * t.z ^ 3 - t.y) ^ 2 -
      (c.baseX * t.z ^ 2 - t.x) ^ 2 * (c.baseX * t.z ^ 2 + t.x) ∧
    ((c.addBase t).y : ZMod c.p) = (c.baseY * t.z ^ 3 - t.y) *
      (t.x * (c.baseX * t.z ^ 2 - t.x) ^ 2 - (c.addBase t).x) -
      t.y * (c.baseX * t.z ^ 2 - t.x) ^ 3 ∧
    ((c.addBase t).z : ZMod c.p) = (c.baseX * t.z ^ 2 - t.x) * t.z := by
  have hmod : ∀ a, a % c.p ≤ c.p := mod_le (NeZero.pos c.p)
  have hsub : ∀ a b, Modular.sub c.p a b ≤ c.p := fun a b => hmod _
  refine ⟨?_, ?_, ?_⟩
  · simp only [addBase, Modular.cast_sub, ZMod.natCast_mod, Nat.cast_mul, hmod, hx, hy]
    ring
  · simp only [addBase, Modular.cast_sub, ZMod.natCast_mod, Nat.cast_mul, hmod, hsub, hx, hy]
    ring
  · simp only [addBase, Modular.cast_sub, ZMod.natCast_mod, Nat.cast_mul, hx]
    ring

theorem standsFor_addBase {t : Scaled} {P G : c.overField.Point} (hG : c.written G = c.base)
    (ht : StandsFor t P) (hz : ((c.addBase t).z : ZMod c.p) ≠ 0) :
    StandsFor (c.addBase t) (P + G) := by
  obtain ⟨x, y, h, rfl, hx, hy, -, hxle, hyle⟩ := ht
  obtain ⟨hx', hy', hz'⟩ := cast_addBase (c := c) hxle hyle
  obtain ⟨hg, rfl, -, -⟩ := c.exists_of_written hG
  have hne : x ≠ c.baseX := by
    rintro rfl
    apply hz
    rw [hz', hx, sub_self, zero_mul]
  have hslope : c.overField.slope x c.baseX y c.baseY * (c.baseX - x) = c.baseY - y := by
    have hquotient : c.overField.slope x c.baseX y c.baseY = (y - c.baseY) / (x - c.baseX) :=
      slope_of_X_ne hne
    rw [eq_div_iff (sub_ne_zero.mpr hne)] at hquotient
    linear_combination -hquotient
  have hscale : ((c.addBase t).x : ZMod c.p) =
      c.overField.addX x c.baseX (c.overField.slope x c.baseX y c.baseY) *
        (c.addBase t).z ^ 2 := by
    rw [hx', hz', hx, hy, addX_overField]
    generalize c.overField.slope x c.baseX y c.baseY = slope at hslope
    linear_combination (-(t.z : ZMod c.p) ^ 6 *
      (c.baseY - y + slope * (c.baseX - x))) * hslope
  refine ⟨_, _, _, Point.add_of_X_ne hne, hscale, ?_, hz, mod_le (NeZero.pos c.p) _,
    mod_le (NeZero.pos c.p) _⟩
  rw [hy', hscale, hz', hx, hy, addY_overField]
  generalize c.overField.slope x c.baseX y c.baseY = slope at hslope
  generalize c.overField.addX x c.baseX slope = third
  linear_combination (-(t.z : ZMod c.p) ^ 9 * (c.baseX - x) ^ 2 * (x - third)) * hslope

/-! ## Long multiples -/

/-- A step of the climb doubles, and adds the base point if the next binary digit is one. -/
theorem standsFor_step {k : Nat} {t : Scaled} {G : c.overField.Point} (hG : c.written G = c.base)
    (ht : StandsFor t ((k / 2) • G)) {next : Scaled}
    (hnext : next = if k % 2 = 1 then c.addBase (c.doubleScaled t) else c.doubleScaled t)
    (hz : (next.z : ZMod c.p) ≠ 0) : StandsFor next (k • G) := by
  by_cases hodd : k % 2 = 1
  · have hsplit : k = k / 2 + k / 2 + 1 := by omega
    rw [if_pos hodd] at hnext
    subst hnext
    have hdouble : ((c.doubleScaled t).z : ZMod c.p) ≠ 0 := by
      have hproduct := (cast_addBase (c := c) (t := c.doubleScaled t)
        (mod_le (NeZero.pos c.p) _) (mod_le (NeZero.pos c.p) _)).2.2
      rw [hproduct] at hz
      exact right_ne_zero_of_mul hz
    rw [hsplit, add_nsmul, add_nsmul, one_nsmul]
    exact standsFor_addBase hG (standsFor_doubleScaled ht hdouble) hz
  · have hsplit : k = k / 2 + k / 2 := by omega
    rw [if_neg hodd] at hnext
    subst hnext
    rw [hsplit, add_nsmul]
    exact standsFor_doubleScaled ht hz

theorem standsFor_climb {k i : Nat} {t last : Scaled} {G : c.overField.Point}
    (hG : c.written G = c.base) (ht : StandsFor t ((k / 2 ^ i) • G))
    (hclimb : c.climb k i t = some last) : StandsFor last (k • G) := by
  induction i generalizing t with
  | zero =>
      cases hclimb
      rw [pow_zero, Nat.div_one] at ht
      exact ht
  | succ i ih =>
      have hhalf : k / 2 ^ (i + 1) = k / 2 ^ i / 2 := by rw [pow_succ, Nat.div_div_eq_div_mul]
      rw [hhalf] at ht
      simp only [climb, Option.ite_none_left_eq_some] at hclimb
      obtain ⟨hz, hclimb⟩ := hclimb
      refine ih (standsFor_step hG ht rfl ?_) hclimb
      rw [ne_eq, ZMod.natCast_eq_zero_iff, Nat.dvd_iff_mod_eq_zero]
      exact hz

/-- Where a climb ends is the multiple of the base point. -/
theorem exists_nsmul_eq {k i x y : Nat} {G : c.overField.Point} (hG : c.written G = c.base)
    (hfirst : k / 2 ^ i = 1) (hends : c.endsAt k i x y = true) :
    ∃ h, k • G = .some (x : ZMod c.p) (y : ZMod c.p) h := by
  have hstart : StandsFor ⟨c.baseX, c.baseY, 1⟩ ((k / 2 ^ i) • G) := by
    obtain ⟨hg, rfl, hxlt, hylt⟩ := c.exists_of_written hG
    rw [hfirst, one_nsmul]
    exact ⟨_, _, hg, rfl, by simp, by simp, by simp, hxlt.le, hylt.le⟩
  unfold endsAt at hends
  split at hends
  next => cases hends
  next last hclimb =>
    simp only [Bool.and_eq_true, beq_iff_eq] at hends
    obtain ⟨x', y', h, hmultiple, hx, hy, hz, -, -⟩ := standsFor_climb hG hstart hclimb
    have hlastX : (last.x : ZMod c.p) = x * (last.z * last.z) := by
      have hresidue := congrArg (Nat.cast (R := ZMod c.p)) hends.1
      simpa only [ZMod.natCast_mod, Nat.cast_mul] using hresidue
    have hlastY : (last.y : ZMod c.p) = y * (last.z * last.z * last.z) := by
      have hresidue := congrArg (Nat.cast (R := ZMod c.p)) hends.2
      simpa only [ZMod.natCast_mod, Nat.cast_mul] using hresidue
    obtain rfl : x' = x := by
      apply mul_right_cancel₀ (pow_ne_zero 2 hz)
      rw [← hx, hlastX, pow_two]
    obtain rfl : y' = y := by
      apply mul_right_cancel₀ (pow_ne_zero 3 hz)
      linear_combination hlastY - hy
    exact ⟨h, hmultiple⟩

end Curve

end ShardLedger
