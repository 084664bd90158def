import ShardLedger.Proofs.Curve.Order
import ShardLedger.Proofs.Signature.Recovery

/-!
# The signatures of a key

Recovery solves for a key in a group of prime order.  The multiple by `n - s` of a lift is
the multiple by `s` of its negative, so that a signature and its complement recover to the
same key.  No other signature with the same first scalar does: the solution determines the
multiple of the lift, and the multiple determines the scalar.
-/

namespace ShardLedger

theorem Point.toBytes_affine_inj {x y x' y' : Nat} (hx : x < 256 ^ 32) (hy : y < 256 ^ 32)
    (hx' : x' < 256 ^ 32) (hy' : y' < 256 ^ 32)
    (hbytes : (affine x y).toBytes = (affine x' y').toBytes) : affine x y = affine x' y' := by
  have happend := congrArg FixedBytes.bytes hbytes
  obtain ⟨hfirst, hsecond⟩ := List.append_inj happend (by simp)
  have hx'' := congrArg BigEndian.toNat hfirst
  have hy'' := congrArg BigEndian.toNat hsecond
  rw [BigEndian.toNat_fixed_of_lt hx, BigEndian.toNat_fixed_of_lt hx'] at hx''
  rw [BigEndian.toNat_fixed_of_lt hy, BigEndian.toNat_fixed_of_lt hy'] at hy''
  rw [hx'', hy'']

namespace Curve

theorem contains_of_evenRoot? {c : Curve} (hp : 0 < c.p) {x y : Nat} (hx : x < c.p)
    (hroot : c.evenRoot? x = some y) : c.contains x y = true := by
  simp only [evenRoot?, Option.ite_none_right_eq_some, Option.some.injEq] at hroot
  obtain ⟨hsquare, hy⟩ := hroot
  generalize hpower : Modular.power c.p (c.cubic x) ((c.p + 1) / 4) = root at hsquare hy
  have hlt : root < c.p := by
    rw [← hpower, Modular.power_eq]
    exact Nat.mod_lt _ hp
  have hpoint : y < c.p ∧ y * y % c.p = root * root % c.p := by
    by_cases heven : root % 2 = 0
    · rw [if_pos heven] at hy
      rw [← hy]
      exact ⟨hlt, rfl⟩
    · rw [if_neg heven] at hy
      have hresidue : ((c.p - root : Nat) : ZMod c.p) = -root := by
        rw [Nat.cast_sub hlt.le, ZMod.natCast_self, zero_sub]
      rw [← hy, ← ZMod.natCast_eq_natCast_iff', Nat.cast_mul, Nat.cast_mul, hresidue, neg_mul_neg]
      exact ⟨by omega, rfl⟩
  simp only [contains, Bool.and_eq_true, decide_eq_true_eq, beq_iff_eq]
  exact ⟨⟨hx, hpoint.1⟩, hpoint.2.trans hsquare⟩

variable (c : Curve) [Fact c.p.Prime]

/-- The solution, as an element of the group. -/
def solution (G : c.overField.Point) (e r s : Nat) (R : c.overField.Point) : c.overField.Point :=
  Modular.inverse c.n r • (s • R - (e % c.n) • G)

theorem solve_written {G : c.overField.Point} (hG : c.written G = c.base) (e r s : Nat)
    (R : c.overField.Point) :
    c.solve e r s (c.written R) = c.written (c.solution G e r s R) := by
  rw [solve, ← hG, mul_written, mul_written, neg_written, add_written, mul_written, solution,
    sub_eq_add_neg]

/-- The bytes of a point determine it, the point at infinity apart. -/
theorem toBytes_written_inj (hp : c.p ≤ 256 ^ 32) {P Q : c.overField.Point} (hP : P ≠ 0)
    (hQ : Q ≠ 0) (hbytes : (c.written P).toBytes = (c.written Q).toBytes) : P = Q := by
  have hfits : ∀ z : ZMod c.p, z.val < 256 ^ 32 := fun z => z.val_lt.trans_le hp
  cases P with
  | zero => exact absurd rfl hP
  | some x y h =>
      cases Q with
      | zero => exact absurd rfl hQ
      | some x' y' h' =>
          apply c.written_injective
          exact Point.toBytes_affine_inj (hfits x) (hfits y) (hfits x') (hfits y') hbytes

end Curve

namespace Secp256k1

variable {G R T : secp256k1.overField.Point}

theorem mod_nsmul (k : Nat) (T : secp256k1.overField.Point) : (k % secp256k1.n) • T = k • T := by
  rw [← natCard_point, mod_natCard_nsmul]

/-- Multiples by scalars other than zero cancel. -/
theorem nsmul_inverse_nsmul {r : Nat} (hr : 0 < r) (hlt : r < secp256k1.n)
    (T : secp256k1.overField.Point) : r • Modular.inverse secp256k1.n r • T = T := by
  have hcoprime : Nat.Coprime secp256k1.n r :=
    prime_n.coprime_iff_not_dvd.mpr (Nat.not_dvd_of_pos_of_lt hr hlt)
  have hresidue : Modular.inverse secp256k1.n r * r % secp256k1.n = 1 := by
    have hcast := Modular.inverse_mul_of_coprime prime_n.pos hcoprime
    rw [← Nat.cast_mul, ← Nat.cast_one, ZMod.natCast_eq_natCast_iff',
      Nat.mod_eq_of_lt prime_n.one_lt] at hcast
    exact hcast
  rw [← mul_nsmul, ← mod_nsmul, hresidue, one_nsmul]

theorem order_sub_nsmul {s : Nat} (hs : s ≤ secp256k1.n) (T : secp256k1.overField.Point) :
    (secp256k1.n - s) • T = s • -T := by
  have hzero : secp256k1.n • T = 0 := by
    rw [← mod_nsmul, Nat.mod_self, zero_nsmul]
  rw [sub_nsmul T hs, hzero, zero_add, neg_nsmul]

theorem solution_order_sub {s : Nat} (hs : s ≤ secp256k1.n) (e r : Nat) :
    secp256k1.solution G e r (secp256k1.n - s) R = secp256k1.solution G e r s (-R) := by
  rw [Curve.solution, Curve.solution, order_sub_nsmul hs]

theorem nsmul_eq_of_solution_eq {e r s s' : Nat} (hr : 0 < r) (hlt : r < secp256k1.n)
    (hsolution : secp256k1.solution G e r s R = secp256k1.solution G e r s' T) :
    s • R = s' • T := by
  have hmultiple := congrArg (r • ·) hsolution
  simp only [Curve.solution, nsmul_inverse_nsmul hr hlt] at hmultiple
  exact sub_left_injective hmultiple

theorem eq_of_nsmul_eq (hT : T ≠ 0) {s s' : Nat} (hs : s < secp256k1.n) (hs' : s' < secp256k1.n)
    (hmultiple : s • T = s' • T) : s = s' := by
  rw [← addOrderOf_eq hT] at hs hs'
  exact nsmul_injOn_Iio_addOrderOf hs hs' hmultiple

theorem add_eq_order (hT : T ≠ 0) {s s' : Nat} (hs : 0 < s) (hlt : s < secp256k1.n)
    (hlt' : s' < secp256k1.n) (hmultiple : s • T = s' • -T) : s + s' = secp256k1.n := by
  have hzero : (s + s') • T = 0 := by
    rw [add_nsmul, hmultiple, neg_nsmul, neg_add_cancel]
  have hdvd : secp256k1.n ∣ s + s' := (nsmul_eq_zero_iff hT _).mp hzero
  exact Nat.eq_of_dvd_of_lt_two_mul (by omega) hdvd (by omega)

end Secp256k1

namespace Signature

open Secp256k1

/-- A first scalar in range lifts to an element of the group. -/
theorem exists_lift {r y : Nat} (hlt : r < secp256k1.n) (hroot : secp256k1.evenRoot? r = some y) :
    ∃ R, secp256k1.written R = .affine r y ∧ R ≠ 0 := by
  have horder : secp256k1.n < secp256k1.p := by decide
  obtain ⟨R, hR⟩ := secp256k1.exists_written
    (Curve.contains_of_evenRoot? (by decide) (hlt.trans horder) hroot)
  refine ⟨R, hR, ?_⟩
  rintro rfl
  cases hR

/-! ## The complement -/

theorem InRange.order_sub {r s : Nat} (hrange : InRange r s) : InRange r (secp256k1.n - s) := by
  obtain ⟨hr, hr', hs, hs'⟩ := hrange
  exact ⟨hr, hr', by omega, by omega⟩

/-- For the negative of the second scalar, the two keys that fit change places. -/
theorem candidates_order_sub {hash : Digest} {r s : Nat} (hrange : InRange r s) :
    candidates hash r (secp256k1.n - s) = (candidates hash r s).map Prod.swap := by
  obtain ⟨G, hG, -⟩ := exists_generator
  unfold candidates
  cases hroot : secp256k1.evenRoot? r with
  | none => rfl
  | some y =>
      obtain ⟨R, hR, -⟩ := exists_lift hrange.r_lt hroot
      have hle := hrange.s_lt.le
      simp only [← hR, Curve.neg_written, Curve.solve_written _ hG, solution_order_sub hle, neg_neg]
      cases secp256k1.written (secp256k1.solution G _ r s R) with
      | infinity =>
          cases secp256k1.written (secp256k1.solution G _ r s (-R)) with
          | infinity => rfl
          | affine _ _ => rfl
      | affine _ _ =>
          cases secp256k1.written (secp256k1.solution G _ r s (-R)) with
          | infinity => rfl
          | affine _ _ => rfl

theorem complement_eq {r s v : Int} (hv : v = 0 ∨ v = 1) :
    complement ⟨r, s, v⟩ = ⟨r, secp256k1.n - s, 1 - v⟩ := by
  rcases hv with rfl | rfl
  · rfl
  · rfl

theorem scalars?_eq_some_iff {signature : Signature} {r s : Nat} :
    signature.scalars? = some (r, s) ↔ signature.r = r ∧ signature.s = s ∧ InRange r s := by
  constructor
  · intro hscalars
    simp only [scalars?, Option.ite_none_right_eq_some, Option.some.injEq, Prod.mk.injEq]
      at hscalars
    obtain ⟨⟨hr, hr', hs, hs'⟩, rfl, rfl⟩ := hscalars
    exact ⟨by omega, by omega, by omega, by omega, by omega, by omega⟩
  · obtain ⟨r', s', v⟩ := signature
    rintro ⟨rfl, rfl, hrange⟩
    exact hrange.scalars?_eq v

theorem scalars?_complement (signature : Signature) :
    signature.complement.scalars? =
      signature.scalars?.map fun scalars => (scalars.1, secp256k1.n - scalars.2) := by
  cases hscalars : signature.scalars? with
  | none =>
      rw [Option.map_none, Option.eq_none_iff_forall_ne_some]
      rintro ⟨r, s⟩ hcomplement
      obtain ⟨hr, hs, hrange⟩ := scalars?_eq_some_iff.mp hcomplement
      have hs' : signature.s = (secp256k1.n - s : Nat) := by
        have hlt := hrange.s_lt
        change (secp256k1.n : Int) - signature.s = s at hs
        omega
      have hown : signature.scalars? = some (r, secp256k1.n - s) :=
        scalars?_eq_some_iff.mpr ⟨hr, hs', hrange.order_sub⟩
      rw [hscalars] at hown
      cases hown
  | some scalars =>
      obtain ⟨r, s⟩ := scalars
      obtain ⟨hr, hs, hrange⟩ := scalars?_eq_some_iff.mp hscalars
      have hs' : signature.complement.s = (secp256k1.n - s : Nat) := by
        have hlt := hrange.s_lt.le
        change (secp256k1.n : Int) - signature.s = (secp256k1.n - s : Nat)
        omega
      exact scalars?_eq_some_iff.mpr ⟨hr, hs', hrange.order_sub⟩

/-- With scalars in range, recovery takes the candidate that the recovery id names. -/
theorem recover_of_scalars {hash : Digest} {signature : Signature} {r s : Nat}
    (hscalars : signature.scalars? = some (r, s)) :
    signature.recover hash.bytes =
      if signature.v = 0 then (candidates hash r s).map Prod.fst
      else if signature.v = 1 then (candidates hash r s).map Prod.snd
      else refuse (.badRecoveryId signature.v) := by
  simp only [recover, messageHash, Datum.sized_bytes, ok_bind, hscalars]
  cases candidates hash r s with
  | error fault => rfl
  | ok keys => rfl

theorem recover_complement_of_scalars {hash : Digest} {r s : Nat} {v : Int} (hrange : InRange r s)
    (hv : v = 0 ∨ v = 1) :
    (complement ⟨r, s, v⟩).recover hash.bytes = recover hash.bytes ⟨r, s, v⟩ := by
  have hscalars := hrange.scalars?_eq v
  have hcomplement := scalars?_complement ⟨r, s, v⟩
  rw [hscalars, Option.map_some] at hcomplement
  rw [recover_of_scalars hscalars, recover_of_scalars hcomplement, candidates_order_sub hrange,
    complement_eq hv]
  rcases hv with rfl | rfl
  · cases candidates hash r s with
    | error fault => rfl
    | ok keys => rfl
  · cases candidates hash r s with
    | error fault => rfl
    | ok keys => rfl

theorem flipLastBit_ne {v : Int} (hv : ¬(v = 0 ∨ v = 1)) :
    ¬(flipLastBit v = 0 ∨ flipLastBit v = 1) := by
  rw [flipLastBit]
  split
  next => omega
  next => omega

theorem recover_of_badRecoveryId {hash : Digest} {signature : Signature} {r s : Nat}
    (hscalars : signature.scalars? = some (r, s)) (hv : ¬(signature.v = 0 ∨ signature.v = 1)) :
    signature.recover hash.bytes = refuse (.badRecoveryId signature.v) := by
  obtain ⟨hzero, hone⟩ := not_or.mp hv
  rw [recover_of_scalars hscalars, if_neg hzero, if_neg hone]

/-- The complement recovers to the same key or fails for the same cause.  Only where a recovery id
is refused, the refusal shows the id of the signature at hand. -/
theorem recover_complement_cases (message : Bytes) (signature : Signature) :
    signature.complement.recover message = signature.recover message ∨
      signature.recover message = refuse (.badRecoveryId signature.v) ∧
      signature.complement.recover message = refuse (.badRecoveryId signature.complement.v) := by
  cases hhash : messageHash message with
  | error fault =>
      left
      rw [recover, recover, hhash]
      rfl
  | ok hash =>
      obtain rfl := Datum.sized_eq_ok_iff.mp hhash
      have hcomplement := scalars?_complement signature
      cases hscalars : signature.scalars? with
      | none =>
          left
          rw [hscalars, Option.map_none] at hcomplement
          simp only [recover, hscalars, hcomplement]
      | some scalars =>
          obtain ⟨r, s⟩ := scalars
          by_cases hv : signature.v = 0 ∨ signature.v = 1
          · left
            obtain ⟨r', s', v⟩ := signature
            obtain ⟨rfl, rfl, hrange⟩ := scalars?_eq_some_iff.mp hscalars
            exact recover_complement_of_scalars hrange hv
          · right
            rw [hscalars, Option.map_some] at hcomplement
            exact ⟨recover_of_badRecoveryId hscalars hv,
              recover_of_badRecoveryId hcomplement (flipLastBit_ne hv)⟩

/-- The complement of a signature that was read can be written unless the second scalar exceeds the
order. -/
theorem fits_complement {b : FixedBytes 65} (hs : (ofFixedBytes b).s ≤ secp256k1.n) :
    (ofFixedBytes b).complement.Fits := by
  have horder : (secp256k1.n : Int) < 2 ^ 256 := by decide
  have hr : BigEndian.toNat (b.bytes.take 32) < 256 ^ 32 := by
    simpa using BigEndian.toNat_lt (b.bytes.take 32)
  have hs' : (ofFixedBytes b).complement.s ≤ secp256k1.n :=
    Int.sub_le_self _ (Int.natCast_nonneg _)
  have hv : 0 ≤ flipLastBit (ofFixedBytes b).v ∧ flipLastBit (ofFixedBytes b).v < 256 := by
    have hbyte : BigEndian.toNat (b.bytes.drop 64) < 256 := by
      simpa using BigEndian.toNat_lt (b.bytes.drop 64)
    change 0 ≤ flipLastBit (BigEndian.toNat (b.bytes.drop 64)) ∧
      flipLastBit (BigEndian.toNat (b.bytes.drop 64)) < 256
    rw [flipLastBit]
    omega
  exact ⟨Int.natCast_nonneg _, Int.ofNat_lt.mpr hr, Int.sub_nonneg.mpr hs, by omega, hv.1, hv.2⟩

theorem exists_hash_of_recover {message : Bytes} {signature : Signature} {key : PublicKey}
    (hrecover : signature.recover message = .ok key) : ∃ hash : Digest, message = hash.bytes := by
  obtain ⟨hash, hhash, -⟩ := bind_eq_ok_iff.mp hrecover
  exact ⟨hash, Datum.sized_eq_ok_iff.mp hhash⟩

theorem recover_complement_of_ok {message : Bytes} {signature : Signature} {key : PublicKey}
    (hrecover : signature.recover message = .ok key) :
    signature.complement.recover message = .ok key := by
  rcases recover_complement_cases message signature with hsame | ⟨hbad, -⟩
  · rw [hsame, hrecover]
  · rw [hrecover] at hbad
    cases hbad

/-! ## No other signature -/

/-- The lift of a first scalar that a recovery id names. -/
def namedLift (r y : Nat) (v : Int) : Point :=
  if v = 0 then .affine r y else secp256k1.neg (.affine r y)

theorem exists_of_candidates {hash : Digest} {r s : Nat} {keys : PublicKey × PublicKey}
    (hcandidates : candidates hash r s = .ok keys) :
    ∃ y first second, secp256k1.evenRoot? r = some y ∧
      secp256k1.solve (BigEndian.toNat hash.bytes) r s (.affine r y) = first ∧
      secp256k1.solve (BigEndian.toNat hash.bytes) r s (secp256k1.neg (.affine r y)) = second ∧
      first ≠ .infinity ∧ second ≠ .infinity ∧ keys = (first.toBytes, second.toBytes) := by
  unfold candidates at hcandidates
  cases hroot : secp256k1.evenRoot? r with
  | none =>
      rw [hroot] at hcandidates
      cases hcandidates
  | some y =>
      simp only [hroot] at hcandidates
      split at hcandidates
      next => cases hcandidates
      next hfirst =>
        split at hcandidates
        next => cases hcandidates
        next hsecond =>
          cases hcandidates
          exact ⟨y, _, _, rfl, rfl, rfl, hfirst, hsecond, rfl⟩

/-- A signature recovers to a key by way of a point: the solution for the lift that the recovery id
names, which is not the point at infinity. -/
structure RecoversBy (hash : Digest) (signature : Signature) (key : PublicKey) (r s y : Nat)
    (point : Point) : Prop where
  r_eq : signature.r = r
  s_eq : signature.s = s
  inRange : InRange r s
  v_eq : signature.v = 0 ∨ signature.v = 1
  root_eq : secp256k1.evenRoot? r = some y
  solve_eq : secp256k1.solve (BigEndian.toNat hash.bytes) r s (namedLift r y signature.v) = point
  ne_infinity : point ≠ .infinity
  toBytes_eq : point.toBytes = key

theorem exists_recoversBy {hash : Digest} {signature : Signature} {key : PublicKey}
    (hrecover : signature.recover hash.bytes = .ok key) :
    ∃ r s y point, RecoversBy hash signature key r s y point := by
  cases hscalars : signature.scalars? with
  | none =>
      simp only [recover, messageHash, Datum.sized_bytes, ok_bind, hscalars] at hrecover
      cases hrecover
  | some scalars =>
      obtain ⟨r, s⟩ := scalars
      obtain ⟨hr, hs, hrange⟩ := scalars?_eq_some_iff.mp hscalars
      rw [recover_of_scalars hscalars] at hrecover
      by_cases hzero : signature.v = 0
      · rw [if_pos hzero, map_eq_ok_iff] at hrecover
        obtain ⟨keys, hcandidates, rfl⟩ := hrecover
        obtain ⟨y, first, second, hroot, hfirst, -, hne, -, rfl⟩ :=
          exists_of_candidates hcandidates
        refine ⟨r, s, y, first, hr, hs, hrange, Or.inl hzero, hroot, ?_, hne, rfl⟩
        rw [namedLift, if_pos hzero, hfirst]
      · rw [if_neg hzero] at hrecover
        by_cases hone : signature.v = 1
        · rw [if_pos hone, map_eq_ok_iff] at hrecover
          obtain ⟨keys, hcandidates, rfl⟩ := hrecover
          obtain ⟨y, first, second, hroot, -, hsecond, -, hne, rfl⟩ :=
            exists_of_candidates hcandidates
          refine ⟨r, s, y, second, hr, hs, hrange, Or.inr hone, hroot, ?_, hne, rfl⟩
          rw [namedLift, if_neg hzero, hsecond]
        · rw [if_neg hone] at hrecover
          cases hrecover

theorem exists_namedLift {r y : Nat} {v : Int} {R : secp256k1.overField.Point}
    (hR : secp256k1.written R = .affine r y) (hv : v = 0 ∨ v = 1) :
    ∃ T, secp256k1.written T = namedLift r y v ∧ (v = 0 ∧ T = R ∨ v = 1 ∧ T = -R) := by
  rcases hv with rfl | rfl
  · exact ⟨R, hR, Or.inl ⟨rfl, rfl⟩⟩
  · refine ⟨-R, ?_, Or.inr ⟨rfl, rfl⟩⟩
    rw [← Curve.neg_written, hR]
    rfl

/-- Equal multiples of two lifts have the same scalar and recovery id, or opposite ones. -/
theorem scalars_cases {R T T' : secp256k1.overField.Point} {r s s' : Nat} {v v' : Int}
    (hR : R ≠ 0) (hrange : InRange r s) (hrange' : InRange r s')
    (hT : v = 0 ∧ T = R ∨ v = 1 ∧ T = -R) (hT' : v' = 0 ∧ T' = R ∨ v' = 1 ∧ T' = -R)
    (hmultiple : s • T = s' • T') : s' = s ∧ v' = v ∨ s + s' = secp256k1.n ∧ v' = 1 - v := by
  rcases hT with ⟨rfl, rfl⟩ | ⟨rfl, rfl⟩
  · rcases hT' with ⟨rfl, rfl⟩ | ⟨rfl, rfl⟩
    · exact Or.inl ⟨eq_of_nsmul_eq hR hrange'.s_lt hrange.s_lt hmultiple.symm, rfl⟩
    · exact Or.inr ⟨add_eq_order hR hrange.s_pos hrange.s_lt hrange'.s_lt hmultiple, rfl⟩
  · rcases hT' with ⟨rfl, rfl⟩ | ⟨rfl, rfl⟩
    · rw [Nat.add_comm]
      exact Or.inr
        ⟨add_eq_order hR hrange'.s_pos hrange'.s_lt hrange.s_lt hmultiple.symm, rfl⟩
    · have hne := neg_ne_zero.mpr hR
      exact Or.inl ⟨eq_of_nsmul_eq hne hrange'.s_lt hrange.s_lt hmultiple.symm, rfl⟩

/-- Signatures with the same first scalar that recover to the same key are the same, or each
other's complement. -/
theorem eq_or_eq_complement {hash : Digest} {signature other : Signature} {key : PublicKey}
    (hrecover : signature.recover hash.bytes = .ok key)
    (hother : other.recover hash.bytes = .ok key) (hfirst : other.r = signature.r) :
    other = signature ∨ other = signature.complement := by
  obtain ⟨G, hG, -⟩ := exists_generator
  obtain ⟨r, s, y, point, hr, hs, hrange, hv, hroot, hsolve, hne, hkey⟩ :=
    exists_recoversBy hrecover
  obtain ⟨r', s', y', point', hr', hs', hrange', hv', hroot', hsolve', hne', hkey'⟩ :=
    exists_recoversBy hother
  obtain rfl : r = r' := by omega
  obtain rfl : y = y' := by
    rw [hroot] at hroot'
    exact Option.some.inj hroot'
  -- Both keys are solutions for the same lift or its negative.
  obtain ⟨R, hR, hRne⟩ := exists_lift hrange.r_lt hroot
  obtain ⟨T, hT, hchoice⟩ := exists_namedLift hR hv
  obtain ⟨T', hT', hchoice'⟩ := exists_namedLift hR hv'
  rw [← hT, Curve.solve_written _ hG] at hsolve
  rw [← hT', Curve.solve_written _ hG] at hsolve'
  subst hsolve hsolve'
  rw [ne_eq, Curve.written_eq_infinity_iff] at hne hne'
  have hsolution := secp256k1.toBytes_written_inj (by decide) hne hne' (hkey.trans hkey'.symm)
  have hmultiple := nsmul_eq_of_solution_eq hrange.r_pos hrange.r_lt hsolution
  obtain ⟨hscalar, hid⟩ | ⟨hscalar, hid⟩ :=
    scalars_cases hRne hrange hrange' hchoice hchoice' hmultiple
  · have hsame : other.s = signature.s := by omega
    obtain ⟨_, _, _⟩ := signature
    exact Or.inl ((mk.injEq ..).mpr ⟨hfirst, hsame, hid⟩)
  · have hnegative : other.s = secp256k1.n - signature.s := by omega
    obtain ⟨_, _, _⟩ := signature
    rw [complement_eq hv]
    exact Or.inr ((mk.injEq ..).mpr ⟨hfirst, hnegative, hid⟩)

end Signature

end ShardLedger
