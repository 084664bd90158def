import ShardLedger.Proofs.Curve.Scaled
import ShardLedger.Proofs.Signature.Verification

/-!
# Signing succeeds

The search for a nonce ends with the first one that gives scalars, however late it comes: a
generator that has been in every state only repeats itself.  The scalars of a nonce below the
order are a signature of the key: the multiple of the base point by the nonce is the lift for
which recovery solves.  Recovery gives the key back unless the other candidate is the point at
infinity, which is the case for a single first scalar.
-/

namespace ShardLedger

/-! ## The search -/

namespace NonceGenerator

/-- The generator behind the first `k` numbers. -/
def skip (generator : NonceGenerator) : Nat → NonceGenerator
  | 0 => generator
  | k + 1 => generator.next.2.skip k

theorem skip_add (generator : NonceGenerator) (j k : Nat) :
    generator.skip (j + k) = (generator.skip j).skip k := by
  induction j generalizing generator with
  | zero => rw [Nat.zero_add, skip]
  | succ j ih => rw [Nat.succ_add, skip, skip, ih]

/-- Key and value are as long as what the keyed hash gives. -/
structure IsSized (generator : NonceGenerator) : Prop where
  key : generator.key.length = 32
  value : generator.value.length = 32

theorem isSized_stir (generator : NonceGenerator) (seed : Bytes) :
    (generator.stir seed).IsSized :=
  ⟨FixedBytes.length_bytes _, FixedBytes.length_bytes _⟩

theorem isSized_start (order secret : Nat) (hash : Bytes) : (start order secret hash).IsSized :=
  isSized_stir _ _

theorem IsSized.skip {generator : NonceGenerator} (hsized : generator.IsSized) (k : Nat) :
    (generator.skip k).IsSized := by
  induction k generalizing generator with
  | zero => exact hsized
  | succ k ih => exact ih (isSized_stir _ _)

/-- The number of a state. -/
def number (generator : NonceGenerator) : Nat :=
  BigEndian.toNat (generator.key ++ generator.value)

theorem IsSized.number_lt {generator : NonceGenerator} (hsized : generator.IsSized) :
    generator.number < stateCount := by
  have hlt := BigEndian.toNat_lt (generator.key ++ generator.value)
  rw [List.length_append, hsized.key, hsized.value] at hlt
  exact hlt

theorem IsSized.number_inj {generator other : NonceGenerator} (hsized : generator.IsSized)
    (hother : other.IsSized) (hnumber : generator.number = other.number) : generator = other := by
  have hlength : ∀ g : NonceGenerator, g.IsSized → (g.key ++ g.value).length = 64 := by
    intro g hg
    rw [List.length_append, hg.key, hg.value]
  have hbytes : generator.key ++ generator.value = other.key ++ other.value := by
    rw [← BigEndian.fixed_toNat (hlength _ hsized), ← BigEndian.fixed_toNat (hlength _ hother)]
    exact congrArg (BigEndian.fixed 64) hnumber
  obtain ⟨hkey, hvalue⟩ := List.append_inj hbytes (hsized.key.trans hother.key.symm)
  obtain ⟨_, _⟩ := generator
  exact (mk.injEq ..).mpr ⟨hkey, hvalue⟩

/-- A generator is back in an earlier state after as many numbers as there are states. -/
theorem IsSized.exists_skip_eq {generator : NonceGenerator} (hsized : generator.IsSized) :
    ∃ i j, i < j ∧ j ≤ stateCount ∧ generator.skip i = generator.skip j := by
  have hmaps : ∀ k ∈ Finset.range (stateCount + 1),
      (generator.skip k).number ∈ Finset.range stateCount :=
    fun k _ => Finset.mem_range.mpr (hsized.skip k).number_lt
  have hcard : (Finset.range stateCount).card < (Finset.range (stateCount + 1)).card := by
    rw [Finset.card_range, Finset.card_range]
    exact Nat.lt_succ_self _
  obtain ⟨i, hi, j, hj, hne, hnumber⟩ :=
    Finset.exists_ne_map_eq_of_card_lt_of_maps_to hcard hmaps
  have hsame := (hsized.skip i).number_inj (hsized.skip j) hnumber
  rw [Finset.mem_range, Nat.lt_succ_iff] at hi hj
  rcases Nat.lt_or_gt_of_ne hne with hlt | hlt
  · exact ⟨i, j, hlt, hj, hsame⟩
  · exact ⟨j, i, hlt, hi, hsame.symm⟩

end NonceGenerator

namespace Signature

theorem firstScalars?_eq_some_iff {e secret count : Nat} {generator : NonceGenerator}
    {scalars : Nat × Nat} :
    firstScalars? e secret count generator = some scalars ↔
      ∃ k < count, attempt? e secret (generator.skip k) = some scalars ∧
        ∀ j < k, attempt? e secret (generator.skip j) = none := by
  induction count generalizing generator with
  | zero => simp [firstScalars?]
  | succ count ih =>
      rw [firstScalars?]
      cases hattempt : attempt? e secret generator with
      | some found =>
          constructor
          · intro hfound
            obtain rfl := Option.some.inj hfound
            exact ⟨0, count.succ_pos, hattempt, fun j hj => absurd hj (Nat.not_lt_zero j)⟩
          · rintro ⟨k, -, hk, hbefore⟩
            cases k with
            | zero => exact hattempt.symm.trans hk
            | succ k =>
                have hnone : attempt? e secret generator = none := hbefore 0 k.succ_pos
                rw [hattempt] at hnone
                cases hnone
      | none =>
          rw [ih]
          constructor
          · rintro ⟨k, hlt, hk, hbefore⟩
            refine ⟨k + 1, Nat.succ_lt_succ hlt, hk, fun j hj => ?_⟩
            cases j with
            | zero => exact hattempt
            | succ j => exact hbefore j (Nat.lt_of_succ_lt_succ hj)
          · rintro ⟨k, hlt, hk, hbefore⟩
            cases k with
            | zero =>
                have hsome : attempt? e secret generator = some scalars := hk
                rw [hattempt] at hsome
                cases hsome
            | succ k =>
                exact ⟨k, Nat.lt_of_succ_lt_succ hlt, hk,
                  fun j hj => hbefore (j + 1) (Nat.succ_lt_succ hj)⟩

end Signature

namespace SecretKey

/-- The nonces of a private key for a message hash. -/
def nonces (secret : SecretKey) (hash : Digest) : NonceGenerator :=
  .start secp256k1.n secret.scalar hash.bytes

/-- The scalars are those of the first nonce that gives any; no nonce comes too late. -/
theorem scalars?_eq_some_iff {secret : SecretKey} {hash : Digest} {scalars : Nat × Nat} :
    secret.scalars? hash = some scalars ↔
      ∃ k, Signature.attempt? (BigEndian.toNat hash.bytes) secret.scalar
          ((secret.nonces hash).skip k) = some scalars ∧
        ∀ j < k, Signature.attempt? (BigEndian.toNat hash.bytes) secret.scalar
          ((secret.nonces hash).skip j) = none := by
  have hsized : (secret.nonces hash).IsSized := NonceGenerator.isSized_start _ _ _
  rw [scalars?, Signature.firstScalars?_eq_some_iff]
  constructor
  · rintro ⟨k, -, hk, hbefore⟩
    exact ⟨k, hk, hbefore⟩
  · rintro ⟨k, hk, hbefore⟩
    refine ⟨k, ?_, hk, hbefore⟩
    -- Otherwise a state came twice before, and what gives scalars came earlier by that much.
    by_contra hlate
    obtain ⟨i, j, hij, hj, hsame⟩ := hsized.exists_skip_eq
    obtain ⟨m, rfl⟩ := Nat.exists_eq_add_of_le (hj.trans (Nat.le_of_not_lt hlate))
    have hearlier := hbefore (i + m) (Nat.add_lt_add_right hij m)
    rw [NonceGenerator.skip_add, hsame, ← NonceGenerator.skip_add, hk] at hearlier
    cases hearlier

end SecretKey

/-! ## The scalars of a nonce -/

namespace Secp256k1

variable {G : secp256k1.overField.Point} {k : Nat}

/-- The second scalar that belongs to a nonce, before it is lowered. -/
def secondScalar (e d r k : Nat) : Nat :=
  Modular.inverse secp256k1.n k * (e + d * r) % secp256k1.n

theorem secondScalar_nsmul (hk : 0 < k) (hk' : k < secp256k1.n) (e d r : Nat) :
    secondScalar e d r k • k • G = e • G + r • d • G := by
  rw [secondScalar, mod_nsmul, mul_nsmul, smul_comm _ k, nsmul_inverse_nsmul hk hk', add_nsmul,
    mul_nsmul]

/-- Recovery solves for the key with the multiple by the nonce as the lift. -/
theorem solution_nonce {e d r : Nat} (hk : 0 < k) (hk' : k < secp256k1.n)
    (hrange : Signature.InRange r (secondScalar e d r k)) :
    secp256k1.solution G e r (secondScalar e d r k) (k • G) = d • G := by
  obtain ⟨hr, hr', hs, hs'⟩ := hrange
  have harrival : secp256k1.arrival G e r (secondScalar e d r k) (d • G) = k • G := by
    apply nsmul_left_cancel hs hs'
    rw [nsmul_arrival hs hs', secondScalar_nsmul hk hk']
  exact ((arrival_eq_iff hr hr' hs hs').mp harrival).symm

/-- For the negative of the lift it finds a point, apart from one first scalar. -/
theorem solution_neg_nonce_ne_zero {e d r : Nat} (hG : G ≠ 0) (hk : 0 < k)
    (hk' : k < secp256k1.n) (hr : 0 < r) (hr' : r < secp256k1.n)
    (hother : ¬secp256k1.n ∣ 2 * e + d * r) :
    secp256k1.solution G e r (secondScalar e d r k) (-(k • G)) ≠ 0 := by
  intro hzero
  have hmultiple := congrArg (r • ·) hzero
  simp only [Curve.solution, nsmul_inverse_nsmul hr hr', mod_nsmul, nsmul_zero] at hmultiple
  apply hother
  rw [← nsmul_eq_zero_iff hG, add_nsmul, two_mul, add_nsmul, mul_nsmul]
  have hsum := secondScalar_nsmul (G := G) hk hk' e d r
  rw [neg_nsmul, sub_eq_zero, neg_eq_iff_eq_neg, hsum] at hmultiple
  rw [add_assoc, hmultiple, add_neg_cancel]

end Secp256k1

namespace Signature

open Secp256k1

/-- The candidates are the solutions for a lift with even second coordinate and for its negative. -/
theorem candidates_of_lift {hash : Digest} {r s y : Nat} {G R : secp256k1.overField.Point}
    (hG : secp256k1.written G = secp256k1.base) (hroot : secp256k1.evenRoot? r = some y)
    (hR : secp256k1.written R = .affine r y)
    (heven : secp256k1.solution G (BigEndian.toNat hash.bytes) r s R ≠ 0)
    (hodd : secp256k1.solution G (BigEndian.toNat hash.bytes) r s (-R) ≠ 0) :
    candidates hash r s =
      .ok ((secp256k1.written (secp256k1.solution G (BigEndian.toNat hash.bytes) r s R)).toBytes,
        (secp256k1.written
          (secp256k1.solution G (BigEndian.toNat hash.bytes) r s (-R))).toBytes) := by
  have hfirst : namedLift r y 0 = secp256k1.written R := hR.symm
  have hsecond : namedLift r y 1 = secp256k1.written (-R) := by
    rw [← Curve.neg_written, hR]
    rfl
  rw [candidates_of_ne_infinity hroot, hfirst, hsecond, Curve.solve_written _ hG,
    Curve.solve_written _ hG]
  · rw [hfirst, Curve.solve_written _ hG, ne_eq, Curve.written_eq_infinity_iff]
    exact heven
  · rw [hsecond, Curve.solve_written _ hG, ne_eq, Curve.written_eq_infinity_iff]
    exact hodd

theorem exists_withRecoveryId {hash : Digest} {key even odd : PublicKey} {r s : Nat}
    (hcandidates : candidates hash r s = .ok (even, odd)) (hkey : even = key ∨ odd = key) :
    ∃ v : Int, withRecoveryId hash key r s = .ok ⟨r, s, v⟩ := by
  rw [withRecoveryId, hcandidates, ok_bind]
  by_cases heven : even = key
  · exact ⟨0, if_pos heven⟩
  · exact ⟨1, (if_neg heven).trans (if_pos (hkey.resolve_left heven))⟩

/-- Lowering the second scalar at most makes the candidates change places. -/
theorem exists_withRecoveryId_lower {hash : Digest} {key even odd : PublicKey} {r s : Nat}
    (hrange : InRange r s) (hcandidates : candidates hash r s = .ok (even, odd))
    (hkey : even = key ∨ odd = key) :
    ∃ v : Int, withRecoveryId hash key r (lower s) = .ok ⟨r, lower s, v⟩ := by
  rw [lower]
  split
  next =>
    have hswapped : candidates hash r (secp256k1.n - s) = _ := candidates_order_sub hrange
    rw [hcandidates] at hswapped
    exact exists_withRecoveryId hswapped hkey.symm
  next => exact exists_withRecoveryId hcandidates hkey

end Signature

namespace SecretKey

open Secp256k1

/-- The second scalar over a message hash for a nonce that leads to a given first one. -/
def second (secret : SecretKey) (hash : Digest) (nonce r : Nat) : Nat :=
  secondScalar (BigEndian.toNat hash.bytes) secret.scalar r nonce

/-- A nonce leads to a point whose first coordinate is below the order, both of its scalars are
positive, and recovery from them does not meet the point at infinity. -/
structure Suits (secret : SecretKey) (hash : Digest) (nonce x y : Nat) : Prop where
  pos : 0 < nonce
  lt_order : nonce < secp256k1.n
  point : secp256k1.mul nonce secp256k1.base = .affine x y
  inRange : Signature.InRange x (secret.second hash nonce x)
  other : ¬secp256k1.n ∣ 2 * BigEndian.toNat hash.bytes + secret.scalar * x

/-- The check that a nonce of `i + 1` binary digits leads to the point and suits. -/
def suitsAt (secret : SecretKey) (hash : Digest) (nonce i x y : Nat) : Bool :=
  nonce < secp256k1.n && nonce / 2 ^ i == 1 && secp256k1.endsAt nonce i x y &&
    (0 < x && x < secp256k1.n && y < secp256k1.p && 0 < secret.second hash nonce x) &&
    (2 * BigEndian.toNat hash.bytes + secret.scalar * x) % secp256k1.n != 0

variable {secret : SecretKey} {hash : Digest} {nonce i x y : Nat}

theorem suits_of_suitsAt (hsuits : secret.suitsAt hash nonce i x y = true) :
    secret.Suits hash nonce x y := by
  simp only [suitsAt, Bool.and_eq_true, decide_eq_true_eq, beq_iff_eq, bne_iff_ne] at hsuits
  obtain ⟨⟨⟨⟨hlt, hfirst⟩, hends⟩, ⟨⟨hx, hx'⟩, hy⟩, hsecond⟩, hother⟩ := hsuits
  have hpos : 0 < nonce := by
    rw [Nat.pos_iff_ne_zero]
    rintro rfl
    rw [Nat.zero_div] at hfirst
    cases hfirst
  have hpoint : secp256k1.mul nonce secp256k1.base = .affine x y := by
    obtain ⟨G, hG, -⟩ := exists_generator
    obtain ⟨h, hmultiple⟩ := Curve.exists_nsmul_eq hG hfirst hends
    have hx'' : x < secp256k1.p := hx'.trans (by decide)
    rw [← hG, Curve.mul_written, hmultiple, Curve.written, ZMod.val_natCast_of_lt hx'',
      ZMod.val_natCast_of_lt hy]
  exact ⟨hpos, hlt, hpoint, ⟨hx, hx', hsecond, Nat.mod_lt _ (by decide)⟩,
    fun hdvd => hother (Nat.mod_eq_zero_of_dvd hdvd)⟩

/-- One of the two candidates is the public key. -/
theorem Suits.exists_candidates (hsuits : secret.Suits hash nonce x y) :
    ∃ even odd, Signature.candidates hash x (secret.second hash nonce x) = .ok (even, odd) ∧
      (even = secret.publicKey ∨ odd = secret.publicKey) := by
  obtain ⟨hpos, hlt, hpoint, hrange, hother⟩ := hsuits
  obtain ⟨G, hG, -⟩ := exists_generator
  have hGne : G ≠ 0 := by
    rintro rfl
    cases hG
  have hkey : secret.publicKey = (secp256k1.written (secret.scalar • G)).toBytes := by
    rw [publicKey, ← hG, Curve.mul_written]
  have hne : secret.scalar • G ≠ 0 := by
    rw [ne_eq, nsmul_eq_zero_iff hGne]
    exact Nat.not_dvd_of_pos_of_lt secret.pos secret.lt_order
  have hnonce := solution_nonce (G := G) hpos hlt hrange
  have hnegative := solution_neg_nonce_ne_zero hGne hpos hlt hrange.r_pos hrange.r_lt hother
  rw [← hnonce] at hne hkey
  rw [← hG, Curve.mul_written] at hpoint
  obtain ⟨root, hroot⟩ := secp256k1.exists_evenRoot? (by decide)
    (secp256k1.contains_of_written hpoint)
  obtain ⟨R, hR, -⟩ := Signature.exists_lift hrange.r_lt hroot
  -- The multiple by the nonce is the even lift or its negative.
  rcases secp256k1.eq_or_eq_neg_of_written hpoint hR with hlift | hlift
  · rw [hlift] at hne hkey hnegative
    exact ⟨_, _, Signature.candidates_of_lift hG hroot hR hne hnegative, Or.inl hkey.symm⟩
  · rw [hlift] at hne hkey hnegative
    rw [neg_neg] at hnegative
    exact ⟨_, _, Signature.candidates_of_lift hG hroot hR hnegative hne, Or.inr hkey.symm⟩

/-- With a recovery id, the scalars are a signature that recovers to the public key. -/
theorem Suits.exists_recover (hsuits : secret.Suits hash nonce x y) :
    ∃ bytes : FixedBytes 65,
      (Signature.ofFixedBytes bytes).recover hash.bytes = .ok secret.publicKey := by
  obtain ⟨even, odd, hcandidates, hkey⟩ := hsuits.exists_candidates
  obtain ⟨heven, hodd⟩ := hsuits.inRange.recover_eq hcandidates
  obtain ⟨v, hv, hrecover⟩ : ∃ v : Nat, v < 256 ∧
      Signature.recover hash.bytes ⟨x, secret.second hash nonce x, v⟩ = .ok secret.publicKey := by
    rcases hkey with rfl | rfl
    · exact ⟨0, by decide, heven⟩
    · exact ⟨1, by decide, hodd⟩
  obtain ⟨bytes, -, hread⟩ := (hsuits.inRange.fits hv).exists_toBytes
  exact ⟨bytes, by rw [hread, hrecover]⟩

/-! ## Signing at the first nonce -/

theorem scalars?_of_suits (hnext : (secret.nonces hash).next.1 = nonce)
    (hsuits : secret.Suits hash nonce x y) :
    secret.scalars? hash = some (x, secret.second hash nonce x) := by
  have hnonzero : ¬(x = 0 ∨ Modular.inverse secp256k1.n nonce *
      (BigEndian.toNat hash.bytes + secret.scalar * x) % secp256k1.n = 0) :=
    not_or.mpr ⟨hsuits.inRange.r_pos.ne', hsuits.inRange.s_pos.ne'⟩
  refine scalars?_eq_some_iff.mpr ⟨0, ?_, fun j hj => absurd hj (Nat.not_lt_zero j)⟩
  rw [NonceGenerator.skip, Signature.attempt?, hnext]
  simp only [hsuits.pos, hsuits.lt_order, and_self, if_true, Curve.signWith?, hsuits.point,
    Nat.mod_eq_of_lt hsuits.inRange.r_lt, if_neg hnonzero]
  rfl

/-- A private key signs a message hash if its first nonce suits. -/
theorem exists_sign_of_suitsAt (nonce i x y : Nat)
    (hnext : (secret.nonces hash).next.1 = nonce)
    (hsuits : secret.suitsAt hash nonce i x y = true) :
    ∃ signature, secret.sign hash = .ok signature := by
  have hsuits := suits_of_suitsAt hsuits
  obtain ⟨even, odd, hcandidates, hkey⟩ := hsuits.exists_candidates
  obtain ⟨v, hsign⟩ := Signature.exists_withRecoveryId_lower hsuits.inRange hcandidates hkey
  rw [sign, scalars?_of_suits hnext hsuits]
  exact ⟨_, hsign⟩

end SecretKey

end ShardLedger
