import ShardLedger.Proofs.Signature.Complement
import ShardLedger.Proofs.Signature.Infinity

/-!
# Verification and recovery

Verification adds up a point from the scalars and a key, recovery solves for the key whose
point is the lift.  In a group of prime order the two undo each other: verification arrives
at a point for exactly one key, the solution for that point.  So a key that recovery gives
verifies, a signature and its complement verify alike, and a key that verifies at the lift
itself, not at a first coordinate beyond the order, is one of the two candidates.
-/

namespace ShardLedger

namespace Curve

/-- The point that verification arrives at: `s⁻¹(eG + rQ)`. -/
def reached (c : Curve) (e r s : Nat) (key : Point) : Point :=
  let w := Modular.inverse c.n s
  c.add (c.mul (e * w % c.n) c.base) (c.mul (r * w % c.n) key)

theorem verifies?_of_reached {c : Curve} {e r s x y : Nat} {key : Point}
    (hreached : c.reached e r s key = .affine x y) :
    c.verifies? e r s key = some (x % c.n == r) := by
  rw [reached] at hreached
  rw [verifies?, hreached]

theorem verifies?_of_infinity {c : Curve} {e r s : Nat} {key : Point}
    (hreached : c.reached e r s key = .infinity) : c.verifies? e r s key = none := by
  rw [reached] at hreached
  rw [verifies?, hreached]

variable (c : Curve) [Fact c.p.Prime]

/-- The same point, as an element of the group. -/
def arrival (G : c.overField.Point) (e r s : Nat) (Q : c.overField.Point) : c.overField.Point :=
  let w := Modular.inverse c.n s
  (e * w % c.n) • G + (r * w % c.n) • Q

theorem reached_written {G : c.overField.Point} (hG : c.written G = c.base) (e r s : Nat)
    (Q : c.overField.Point) :
    c.reached e r s (c.written Q) = c.written (c.arrival G e r s Q) := by
  rw [reached, ← hG]
  simp only [mul_written, add_written]
  rfl

/-- What is written down with coordinates satisfies the equation of the curve. -/
theorem contains_of_written {P : c.overField.Point} {x y : Nat}
    (hP : c.written P = .affine x y) : c.contains x y = true := by
  obtain ⟨h, -, hx, hy⟩ := c.exists_of_written hP
  have hequation := (c.equation_iff_cast).mp h.1
  have hresidue : y * y % c.p = c.cubic x := by
    rw [← Nat.cast_mul, ← Nat.cast_mul, ← Nat.cast_mul, ← Nat.cast_add,
      ZMod.natCast_eq_natCast_iff'] at hequation
    rw [cubic, hequation, Nat.add_mod (x * x % c.p * x), Nat.mod_mul_mod, ← Nat.add_mod]
  simp only [contains, Bool.and_eq_true, decide_eq_true_eq, beq_iff_eq]
  exact ⟨⟨hx, hy⟩, hresidue⟩

/-- Modulo a prime that leaves 3 modulo 4, the first coordinate of a point on the curve has a
root. -/
theorem exists_evenRoot? (hp : c.p % 4 = 3) {x y : Nat} (hpoint : c.contains x y = true) :
    ∃ root, c.evenRoot? x = some root := by
  simp only [contains, Bool.and_eq_true, decide_eq_true_eq, beq_iff_eq] at hpoint
  obtain ⟨-, hequation⟩ := hpoint
  have hexponent : 2 * ((c.p + 1) / 4 + (c.p + 1) / 4) = c.p + 1 := by omega
  have hsquare : (c.cubic x : ZMod c.p) = y * y := by
    rw [← hequation, ZMod.natCast_mod, Nat.cast_mul]
  have hlt : c.cubic x < c.p := Nat.mod_lt _ (Fact.out : c.p.Prime).pos
  generalize hpower : Modular.power c.p (c.cubic x) ((c.p + 1) / 4) = root
  have hcast : (root : ZMod c.p) = (y * y) ^ ((c.p + 1) / 4) := by
    rw [← hpower, Modular.power_eq, ZMod.natCast_mod, Nat.cast_pow, hsquare]
  have hroot : root * root % c.p = c.cubic x := by
    rw [← Nat.mod_eq_of_lt hlt, ← ZMod.natCast_eq_natCast_iff']
    -- The square is a power of `y` by `p + 1`, which Fermat's theorem reduces.
    calc ((root * root : Nat) : ZMod c.p)
        = (y : ZMod c.p) ^ (2 * ((c.p + 1) / 4 + (c.p + 1) / 4)) := by
          rw [Nat.cast_mul, hcast, ← pow_add, ← pow_two, ← pow_mul]
      _ = y * y := by rw [hexponent, pow_succ, ZMod.pow_card]
      _ = c.cubic x := hsquare.symm
  simp only [evenRoot?, hpower, if_pos hroot, Option.some.injEq, exists_eq']

/-- Points with the same first coordinate are the same or each other's negative. -/
theorem eq_or_eq_neg_of_written {P Q : c.overField.Point} {x y y' : Nat}
    (hP : c.written P = .affine x y) (hQ : c.written Q = .affine x y') : P = Q ∨ P = -Q := by
  obtain ⟨h, rfl, -, -⟩ := c.exists_of_written hP
  obtain ⟨h', rfl, -, -⟩ := c.exists_of_written hQ
  rcases WeierstrassCurve.Affine.Y_eq_of_X_eq h.1 h'.1 rfl with hy | hy
  · left
    rw [WeierstrassCurve.Affine.Point.some.injEq]
    exact ⟨rfl, hy⟩
  · right
    rw [WeierstrassCurve.Affine.Point.neg_some, WeierstrassCurve.Affine.Point.some.injEq]
    exact ⟨rfl, hy⟩

end Curve

namespace Secp256k1

variable {G R Q : secp256k1.overField.Point}

theorem nsmul_left_cancel {s : Nat} (hs : 0 < s) (hlt : s < secp256k1.n)
    (hmultiple : s • R = s • Q) : R = Q := by
  have hinverse := congrArg (Modular.inverse secp256k1.n s • ·) hmultiple
  simp only [smul_comm _ s, nsmul_inverse_nsmul hs hlt] at hinverse
  exact hinverse

/-- The equation of verification, without the inverse of the second scalar. -/
theorem nsmul_arrival {s : Nat} (hs : 0 < s) (hlt : s < secp256k1.n) (e r : Nat) :
    s • secp256k1.arrival G e r s Q = e • G + r • Q := by
  have hscaled : secp256k1.arrival G e r s Q =
      Modular.inverse secp256k1.n s • (e • G + r • Q) := by
    rw [Curve.arrival, mod_nsmul, mod_nsmul, mul_nsmul, mul_nsmul, ← nsmul_add]
  rw [hscaled, nsmul_inverse_nsmul hs hlt]

/-- Verification arrives at a point for the solution that recovery finds, and for no other key. -/
theorem arrival_eq_iff {e r s : Nat} (hr : 0 < r) (hr' : r < secp256k1.n) (hs : 0 < s)
    (hs' : s < secp256k1.n) :
    secp256k1.arrival G e r s Q = R ↔ Q = secp256k1.solution G e r s R := by
  have hsolution : r • secp256k1.solution G e r s R = s • R - e • G := by
    rw [Curve.solution, nsmul_inverse_nsmul hr hr', mod_nsmul]
  constructor
  · rintro rfl
    apply nsmul_left_cancel hr hr'
    rw [hsolution, nsmul_arrival hs hs', add_sub_cancel_left]
  · rintro rfl
    apply nsmul_left_cancel hs hs'
    rw [nsmul_arrival hs hs', hsolution, add_sub_cancel]

/-- For the negative of the second scalar, verification arrives at the negative point. -/
theorem arrival_order_sub {e r s : Nat} (hs : 0 < s) (hs' : s < secp256k1.n) :
    secp256k1.arrival G e r (secp256k1.n - s) Q = -secp256k1.arrival G e r s Q := by
  apply nsmul_left_cancel (s := secp256k1.n - s) (by omega) (by omega)
  rw [nsmul_arrival (by omega) (by omega), order_sub_nsmul hs'.le, neg_neg, nsmul_arrival hs hs']

end Secp256k1

namespace PublicKey

theorem point_of_contains {x y : Nat} (hx : x < 256 ^ 32) (hy : y < 256 ^ 32)
    (hpoint : secp256k1.contains x y = true) :
    (Point.affine x y).toBytes.point = .ok (.affine x y) := by
  have hfirst : (Point.affine x y).toBytes.bytes.take 32 = BigEndian.fixed 32 x := by
    simp [Point.toBytes]
  have hsecond : (Point.affine x y).toBytes.bytes.drop 32 = BigEndian.fixed 32 y := by
    simp [Point.toBytes]
  simp only [point, hfirst, hsecond, BigEndian.toNat_fixed_of_lt hx, BigEndian.toNat_fixed_of_lt hy,
    if_pos hpoint]

/-- The bytes of a point of the curve are read as this point. -/
theorem point_toBytes_written {P : secp256k1.overField.Point} (hP : P ≠ 0) :
    (secp256k1.written P).toBytes.point = .ok (secp256k1.written P) := by
  have hfits : secp256k1.p ≤ 256 ^ 32 := by decide
  cases P with
  | zero => exact absurd rfl hP
  | some x y h =>
      exact point_of_contains (x.val_lt.trans_le hfits) (y.val_lt.trans_le hfits)
        (secp256k1.contains_of_written (P := .some x y h) rfl)

/-- A public key that is read as a point holds the bytes of an element of the group. -/
theorem exists_written_of_point {key : PublicKey} {point : Point}
    (hpoint : key.point = .ok point) :
    ∃ Q, secp256k1.written Q = point ∧ Q ≠ 0 ∧ point.toBytes = key := by
  rw [PublicKey.point] at hpoint
  split at hpoint
  next hcontains =>
    cases hpoint
    obtain ⟨Q, hQ⟩ := secp256k1.exists_written hcontains
    refine ⟨Q, hQ, ?_, ?_⟩
    · rintro rfl
      cases hQ
    · have hfirst : BigEndian.fixed 32 (BigEndian.toNat (key.bytes.take 32)) =
          key.bytes.take 32 := BigEndian.fixed_toNat (by simp)
      have hsecond : BigEndian.fixed 32 (BigEndian.toNat (key.bytes.drop 32)) =
          key.bytes.drop 32 := BigEndian.fixed_toNat (by simp)
      apply FixedBytes.ext
      change BigEndian.fixed 32 _ ++ BigEndian.fixed 32 _ = key.bytes
      rw [hfirst, hsecond, List.take_append_drop]
  next => cases hpoint

end PublicKey

namespace Signature

open Secp256k1

/-! ## A key that recovery gives verifies -/

theorem verify_of_scalars {hash : Digest} {signature : Signature} {key : PublicKey}
    {point : Point} {r s : Nat} (hscalars : signature.scalars? = some (r, s))
    (hpoint : key.point = .ok point) :
    signature.verify hash.bytes key.bytes =
      match secp256k1.verifies? (BigEndian.toNat hash.bytes) r s point with
      | none => .error .atInfinity
      | some answer => .ok answer := by
  simp only [verify, messageHash, PublicKey.ofBytes, Datum.sized_bytes, ok_bind, hpoint, hscalars]
  rfl

theorem verify_of_reached {hash : Digest} {signature : Signature} {key : PublicKey}
    {point : Point} {r s x y : Nat} (hscalars : signature.scalars? = some (r, s))
    (hpoint : key.point = .ok point)
    (hreached : secp256k1.reached (BigEndian.toNat hash.bytes) r s point = .affine x y) :
    signature.verify hash.bytes key.bytes = .ok (x % secp256k1.n == r) := by
  rw [verify_of_scalars hscalars hpoint, Curve.verifies?_of_reached hreached]

theorem namedLift_cases {r y : Nat} (v : Int) : ∃ y', namedLift r y v = .affine r y' := by
  rw [namedLift]
  split
  next => exact ⟨y, rfl⟩
  next => exact ⟨_, rfl⟩

theorem verify_of_recover {message : Bytes} {signature : Signature} {key : PublicKey}
    (hrecover : signature.recover message = .ok key) :
    signature.verify message key.bytes = .ok true := by
  obtain ⟨G, hG, -⟩ := exists_generator
  obtain ⟨hash, rfl⟩ := exists_hash_of_recover hrecover
  obtain ⟨r, s, y, point, hby⟩ := exists_recoversBy hrecover
  obtain ⟨hr, hr', hs, hs'⟩ := hby.inRange
  obtain ⟨R, hR, -⟩ := exists_lift hr' hby.root_eq
  obtain ⟨T, hT, -⟩ := exists_namedLift hR hby.v_eq
  obtain ⟨y', hlift⟩ := namedLift_cases (r := r) (y := y) signature.v
  -- The key holds the solution for the lift, and verification arrives at the lift again.
  have hsolve := hby.solve_eq
  rw [← hT, Curve.solve_written _ hG] at hsolve
  subst hsolve
  have hne := hby.ne_infinity
  rw [ne_eq, Curve.written_eq_infinity_iff] at hne
  have hpoint := PublicKey.point_toBytes_written hne
  rw [hby.toBytes_eq] at hpoint
  have hreached : secp256k1.reached (BigEndian.toNat hash.bytes) r s
      (secp256k1.written (secp256k1.solution G (BigEndian.toNat hash.bytes) r s T)) =
        .affine r y' := by
    rw [Curve.reached_written _ hG, (arrival_eq_iff hr hr' hs hs').mpr rfl, hT, hlift]
  have hscalars : signature.scalars? = some (r, s) :=
    scalars?_eq_some_iff.mpr ⟨hby.r_eq, hby.s_eq, hby.inRange⟩
  rw [verify_of_reached hscalars hpoint hreached, Nat.mod_eq_of_lt hr', beq_self_eq_true]

/-! ## The complement verifies alike -/

theorem verifies?_order_sub {e r s : Nat} (hrange : InRange r s) {key : PublicKey} {point : Point}
    (hpoint : key.point = .ok point) :
    secp256k1.verifies? e r (secp256k1.n - s) point = secp256k1.verifies? e r s point := by
  obtain ⟨G, hG, -⟩ := exists_generator
  obtain ⟨Q, rfl, -, -⟩ := PublicKey.exists_written_of_point hpoint
  have hnegative : secp256k1.reached e r (secp256k1.n - s) (secp256k1.written Q) =
      secp256k1.neg (secp256k1.reached e r s (secp256k1.written Q)) := by
    rw [Curve.reached_written _ hG, Curve.reached_written _ hG,
      arrival_order_sub hrange.s_pos hrange.s_lt, Curve.neg_written]
  cases hreached : secp256k1.reached e r s (secp256k1.written Q) with
  | infinity =>
      rw [hreached] at hnegative
      rw [Curve.verifies?_of_infinity hreached, Curve.verifies?_of_infinity hnegative]
  | affine x y =>
      rw [hreached] at hnegative
      rw [Curve.verifies?_of_reached hreached, Curve.verifies?_of_reached hnegative]

theorem verify_complement (message key : Bytes) (signature : Signature) :
    signature.complement.verify message key = signature.verify message key := by
  cases hhash : messageHash message with
  | error fault =>
      rw [verify, verify, hhash]
      rfl
  | ok hash =>
      cases hkey : PublicKey.ofBytes key with
      | error fault =>
          rw [verify, verify, hhash, hkey]
          rfl
      | ok key' =>
          obtain rfl := Datum.sized_eq_ok_iff.mp hhash
          obtain rfl := Datum.sized_eq_ok_iff.mp hkey
          cases hpoint : key'.point with
          | error fault => simp only [verify, hhash, hkey, ok_bind, hpoint, error_bind]
          | ok point =>
              have hcomplement := scalars?_complement signature
              cases hscalars : signature.scalars? with
              | none =>
                  rw [hscalars, Option.map_none] at hcomplement
                  simp only [verify, hhash, hkey, ok_bind, hpoint, hscalars, hcomplement]
              | some scalars =>
                  obtain ⟨r, s⟩ := scalars
                  obtain ⟨-, -, hrange⟩ := scalars?_eq_some_iff.mp hscalars
                  rw [hscalars, Option.map_some] at hcomplement
                  rw [verify_of_scalars hscalars hpoint, verify_of_scalars hcomplement hpoint,
                    verifies?_order_sub hrange hpoint]

/-! ## A key that verifies is a candidate -/

/-- The candidate that the recovery id of a signature names: the solution for its lift. -/
def candidate? (hash : Digest) (signature : Signature) : Option Point := do
  let (r, s) ← signature.scalars?
  let y ← secp256k1.evenRoot? r
  if signature.v = 0 ∨ signature.v = 1 then
    some (secp256k1.solve (BigEndian.toNat hash.bytes) r s (namedLift r y signature.v))
  else none

/-- The candidate of a signature is a point with the bytes of the key. -/
def HasCandidate (hash : Digest) (signature : Signature) (key : PublicKey) : Prop :=
  ∃ point, signature.candidate? hash = some point ∧ point ≠ .infinity ∧ point.toBytes = key

/-- Verification arrives at a point whose first coordinate is less than the order. -/
def ArrivesBelowOrder (hash : Digest) (signature : Signature) (key : PublicKey) : Prop :=
  ∃ r s point x y, signature.scalars? = some (r, s) ∧ key.point = .ok point ∧
    secp256k1.reached (BigEndian.toNat hash.bytes) r s point = .affine x y ∧ x < secp256k1.n

theorem candidate?_eq_some_iff {hash : Digest} {signature : Signature} {point : Point} :
    signature.candidate? hash = some point ↔
      ∃ r s y, signature.scalars? = some (r, s) ∧ secp256k1.evenRoot? r = some y ∧
        (signature.v = 0 ∨ signature.v = 1) ∧
        secp256k1.solve (BigEndian.toNat hash.bytes) r s (namedLift r y signature.v) = point := by
  simp only [candidate?, Option.bind_eq_bind, Option.bind_eq_some_iff, Prod.exists,
    Option.ite_none_right_eq_some, Option.some.injEq]
  constructor
  · rintro ⟨r, s, hscalars, y, hroot, hv, hsolve⟩
    exact ⟨r, s, y, hscalars, hroot, hv, hsolve⟩
  · rintro ⟨r, s, y, hscalars, hroot, hv, hsolve⟩
    exact ⟨r, s, hscalars, y, hroot, hv, hsolve⟩

theorem candidates_of_ne_infinity {hash : Digest} {r s y : Nat}
    (hroot : secp256k1.evenRoot? r = some y)
    (hfirst : secp256k1.solve (BigEndian.toNat hash.bytes) r s (namedLift r y 0) ≠ .infinity)
    (hsecond : secp256k1.solve (BigEndian.toNat hash.bytes) r s (namedLift r y 1) ≠ .infinity) :
    candidates hash r s =
      .ok ((secp256k1.solve (BigEndian.toNat hash.bytes) r s (namedLift r y 0)).toBytes,
        (secp256k1.solve (BigEndian.toNat hash.bytes) r s (namedLift r y 1)).toBytes) := by
  rw [namedLift, if_pos rfl] at hfirst ⊢
  rw [namedLift, if_neg one_ne_zero] at hsecond ⊢
  -- The matches reduce, since neither solution is the point at infinity.
  simp only [candidates, hroot]

/-- Only a candidate at infinity keeps recovery from giving the other one. -/
theorem recover_of_hasCandidate {hash : Digest} {signature : Signature} {key : PublicKey}
    (hcandidate : HasCandidate hash signature key) :
    signature.recover hash.bytes = .ok key ∨
      signature.recover hash.bytes = .error .atInfinity ∧
        candidate? hash { signature with v := 1 - signature.v } = some .infinity := by
  obtain ⟨point, hpoint, hne, rfl⟩ := hcandidate
  obtain ⟨r, s, y, hscalars, hroot, hv, rfl⟩ := candidate?_eq_some_iff.mp hpoint
  cases hother : secp256k1.solve (BigEndian.toNat hash.bytes) r s
      (namedLift r y (1 - signature.v)) with
  | infinity =>
      right
      have hsolved : SolvedAtInfinity hash r s := by
        refine ⟨y, hroot, ?_⟩
        rcases hv with hv | hv
        · rw [hv] at hother
          exact Or.inr hother
        · rw [hv] at hother
          exact Or.inl hother
      refine ⟨recover_eq_atInfinity ⟨hash, r, s, rfl, hscalars, hv, hsolved⟩, ?_⟩
      have hother' : 1 - signature.v = 0 ∨ 1 - signature.v = 1 := by omega
      exact candidate?_eq_some_iff.mpr ⟨r, s, y, hscalars, hroot, hother', hother⟩
  | affine x' y' =>
      left
      have hne' : secp256k1.solve (BigEndian.toNat hash.bytes) r s
          (namedLift r y (1 - signature.v)) ≠ .infinity := by
        rw [hother]
        exact Point.noConfusion
      rw [recover_of_scalars hscalars]
      rcases hv with hv | hv
      · rw [hv] at hne hne' ⊢
        rw [if_pos rfl, candidates_of_ne_infinity hroot hne hne']
        rfl
      · rw [hv] at hne hne' ⊢
        rw [if_neg one_ne_zero, if_pos rfl, candidates_of_ne_infinity hroot hne' hne]
        rfl

variable {G R Q : secp256k1.overField.Point}

/-- A key is the candidate of a signature if it is the solution for the lift named. -/
theorem hasCandidate_iff (hG : secp256k1.written G = secp256k1.base) {hash : Digest}
    {signature : Signature} {r s root : Nat} (hscalars : signature.scalars? = some (r, s))
    (hroot : secp256k1.evenRoot? r = some root) (hR : secp256k1.written R = .affine r root)
    (hQ : Q ≠ 0) :
    HasCandidate hash signature (secp256k1.written Q).toBytes ↔
      signature.v = 0 ∧ Q = secp256k1.solution G (BigEndian.toNat hash.bytes) r s R ∨
        signature.v = 1 ∧ Q = secp256k1.solution G (BigEndian.toNat hash.bytes) r s (-R) := by
  constructor
  · rintro ⟨point, hpoint, hne, hbytes⟩
    obtain ⟨r', s', root', hscalars', hroot', hv, rfl⟩ := candidate?_eq_some_iff.mp hpoint
    obtain ⟨rfl, rfl⟩ : r = r' ∧ s = s' := by simpa [hscalars] using hscalars'
    obtain rfl : root = root' := by simpa [hroot] using hroot'
    obtain ⟨T, hT, hchoice⟩ := exists_namedLift hR hv
    rw [← hT, Curve.solve_written _ hG, ne_eq, Curve.written_eq_infinity_iff] at hne
    rw [← hT, Curve.solve_written _ hG] at hbytes
    have hsolution := secp256k1.toBytes_written_inj (by decide) hne hQ hbytes
    rcases hchoice with ⟨hv, rfl⟩ | ⟨hv, rfl⟩
    · exact Or.inl ⟨hv, hsolution.symm⟩
    · exact Or.inr ⟨hv, hsolution.symm⟩
  · intro hchoice
    have hv : signature.v = 0 ∨ signature.v = 1 := hchoice.imp And.left And.left
    obtain ⟨T, hT, hchoice'⟩ := exists_namedLift hR hv
    have hsolution : Q = secp256k1.solution G (BigEndian.toNat hash.bytes) r s T := by
      rcases hchoice' with ⟨hv, rfl⟩ | ⟨hv, rfl⟩
      · exact (hchoice.resolve_right (by omega)).2
      · exact (hchoice.resolve_left (by omega)).2
    refine ⟨_, candidate?_eq_some_iff.mpr ⟨r, s, root, hscalars, hroot, hv, rfl⟩, ?_, ?_⟩
    · rw [← hT, Curve.solve_written _ hG, ← hsolution, ne_eq, Curve.written_eq_infinity_iff]
      exact hQ
    · rw [← hT, Curve.solve_written _ hG, ← hsolution]

/-- The solutions for a lift and for its negative differ. -/
theorem solution_neg_ne {e r s : Nat} (hrange : InRange r s) (hR : R ≠ 0) :
    secp256k1.solution G e r s R ≠ secp256k1.solution G e r s (-R) := by
  intro hsame
  obtain ⟨hr, hr', hs, hs'⟩ := hrange
  have hself : R = -R := nsmul_left_cancel hs hs' (nsmul_eq_of_solution_eq hr hr' hsame)
  apply two_nsmul_ne_zero hR
  rw [two_nsmul, add_eq_zero_iff_eq_neg]
  exact hself

/-- A key that verifies at a first coordinate below the order is the candidate for exactly one
recovery id. -/
theorem exists_unique_candidate {hash : Digest} {signature : Signature} {key : PublicKey}
    (hverify : signature.verify hash.bytes key.bytes = .ok true)
    (harrives : ArrivesBelowOrder hash signature key) :
    ∃ v : Int, (v = 0 ∨ v = 1) ∧
      ∀ v', HasCandidate hash { signature with v := v' } key ↔ v' = v := by
  obtain ⟨G, hG, -⟩ := exists_generator
  obtain ⟨r, s, point, x, y, hscalars, hpoint, hreached, hx⟩ := harrives
  obtain ⟨-, -, hrange⟩ := scalars?_eq_some_iff.mp hscalars
  obtain ⟨hr, hr', hs, hs'⟩ := hrange
  obtain rfl : x = r := by
    rw [verify_of_reached hscalars hpoint hreached, Nat.mod_eq_of_lt hx, Except.ok.injEq] at hverify
    exact beq_iff_eq.mp hverify
  obtain ⟨Q, rfl, hQ, rfl⟩ := PublicKey.exists_written_of_point hpoint
  rw [Curve.reached_written _ hG] at hreached
  obtain ⟨root, hroot⟩ := secp256k1.exists_evenRoot? (by decide)
    (secp256k1.contains_of_written hreached)
  obtain ⟨R, hR, hRne⟩ := exists_lift hr' hroot
  have hne := solution_neg_ne (G := G) (e := BigEndian.toNat hash.bytes) ⟨hr, hr', hs, hs'⟩ hRne
  -- The scalars do not depend on the recovery id.
  have hscalars' : ∀ v', scalars? { signature with v := v' } = some (x, s) := fun _ => hscalars
  rcases secp256k1.eq_or_eq_neg_of_written hreached hR with harrival | harrival
  · rw [arrival_eq_iff hr hr' hs hs'] at harrival
    refine ⟨0, Or.inl rfl, fun v' => ?_⟩
    rw [hasCandidate_iff hG (hscalars' v') hroot hR hQ, harrival]
    simp [hne]
  · rw [arrival_eq_iff hr hr' hs hs'] at harrival
    refine ⟨1, Or.inr rfl, fun v' => ?_⟩
    rw [hasCandidate_iff hG (hscalars' v') hroot hR hQ, harrival]
    simp [hne.symm]

/-- What recovers to a key verifies for it, and a signature verifies for the same keys as its
complement.  What verifies for a key, at a first coordinate below the order, has it for a candidate
with exactly one recovery id; with this one it recovers to the key, unless the other candidate is
the point at infinity. -/
theorem verification_agrees_with_recovery :
    (∀ (message : Bytes) (signature : Signature) (key : PublicKey),
      signature.recover message = .ok key → signature.verify message key.bytes = .ok true) ∧
    (∀ (message key : Bytes) (signature : Signature),
      signature.complement.verify message key = signature.verify message key) ∧
    (∀ (hash : Digest) (signature : Signature) (key : PublicKey),
      signature.verify hash.bytes key.bytes = .ok true → ArrivesBelowOrder hash signature key →
      ∃ v : Int, (v = 0 ∨ v = 1) ∧
        (∀ v', HasCandidate hash { signature with v := v' } key ↔ v' = v) ∧
        (recover hash.bytes { signature with v := v } = .ok key ∨
          recover hash.bytes { signature with v := v } = .error .atInfinity ∧
            candidate? hash { signature with v := 1 - v } = some .infinity)) := by
  refine ⟨fun _ _ _ => verify_of_recover, verify_complement, ?_⟩
  intro hash signature key hverify harrives
  obtain ⟨v, hv, honly⟩ := exists_unique_candidate hverify harrives
  exact ⟨v, hv, honly, recover_of_hasCandidate ((honly v).mpr rfl)⟩

/-- The lift of the first scalar one. -/
def liftOfOne : Point :=
  .affine 1 0x4218f20ae6c646b363db68605822fb14264ca8d2587fdd6fbc750d587e76a7ee

/-- Over the hash zero, the scalars one belong to this lift itself as the key. -/
theorem verification_agrees_with_recovery_ones :
    verify (FixedBytes.zero 32).bytes ⟨1, 1, 0⟩ liftOfOne.toBytes.bytes = .ok true ∧
    verify (FixedBytes.zero 32).bytes (complement ⟨1, 1, 0⟩) liftOfOne.toBytes.bytes = .ok true ∧
    ∃ v : Int, (v = 0 ∨ v = 1) ∧
      (∀ v', HasCandidate (FixedBytes.zero 32) ⟨1, 1, v'⟩ liftOfOne.toBytes ↔ v' = v) ∧
      (recover (FixedBytes.zero 32).bytes ⟨1, 1, v⟩ = .ok liftOfOne.toBytes ∨
        recover (FixedBytes.zero 32).bytes ⟨1, 1, v⟩ = .error .atInfinity ∧
          candidate? (FixedBytes.zero 32) ⟨1, 1, 1 - v⟩ = some .infinity) := by
  obtain ⟨hrecovered, hcomplement, hcandidate⟩ := verification_agrees_with_recovery
  have hverify : verify (FixedBytes.zero 32).bytes ⟨1, 1, 0⟩ liftOfOne.toBytes.bytes = .ok true :=
    hrecovered _ _ _ (by decide +kernel)
  have harrives : ArrivesBelowOrder (FixedBytes.zero 32) ⟨1, 1, 0⟩ liftOfOne.toBytes :=
    ⟨1, 1, liftOfOne, 1, _, by decide +kernel, by decide +kernel,
      (by decide +kernel : secp256k1.reached _ 1 1 liftOfOne = liftOfOne), by decide⟩
  exact ⟨hverify, (hcomplement _ _ _).trans hverify, hcandidate _ _ _ hverify harrives⟩

end Signature

end ShardLedger
