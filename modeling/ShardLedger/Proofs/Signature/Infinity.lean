import ShardLedger.Proofs.Signature.Recovery

/-!
# Recovery at infinity

Recovery refuses malformed signatures, and it breaks down when one of the two keys that
fit the scalars is the point at infinity.  Nothing else can go wrong.  Whoever chooses the
scalars can bring this about for nearly every message: with the base point as the lift,
the sum that recovery solves for cancels.
-/

namespace ShardLedger

namespace Curve

/-- The second coordinate of a point does not exceed the size of the field. -/
def Bounded (c : Curve) : Point → Prop
  | .infinity => True
  | .affine _ y => y ≤ c.p

theorem bounded_chord {c : Curve} (hp : 0 < c.p) (slope x1 y1 x2 : Nat) :
    c.Bounded (c.chord slope x1 y1 x2) :=
  Nat.le_of_lt (Nat.mod_lt _ hp)

theorem bounded_add {c : Curve} (hp : 0 < c.p) {point other : Point} (hpoint : c.Bounded point)
    (hother : c.Bounded other) : c.Bounded (c.add point other) := by
  unfold add
  split
  next => exact hother
  next => exact hpoint
  next =>
    split
    next =>
      split
      next => trivial
      next => exact bounded_chord hp _ _ _ _
    next => exact bounded_chord hp _ _ _ _

theorem bounded_mul {c : Curve} (hp : 0 < c.p) (k : Nat) {point : Point}
    (hpoint : c.Bounded point) : c.Bounded (c.mul k point) := by
  fun_induction mul c k point with
  | case1 => trivial
  | case2 k point hk rest heven ih => exact ih (bounded_add hp hpoint hpoint)
  | case3 k point hk rest hodd ih =>
      exact bounded_add hp hpoint (ih (bounded_add hp hpoint hpoint))

/-- A point and its negative add up to nothing. -/
theorem add_neg_self {c : Curve} {point : Point} (hpoint : c.Bounded point) :
    c.add point (c.neg point) = .infinity := by
  cases point with
  | infinity => rfl
  | affine x y =>
      have hy : y ≤ c.p := hpoint
      have hcancel : (y + (c.p - y) % c.p) % c.p = 0 := by
        rw [Nat.add_mod_mod, Nat.add_sub_cancel' hy, Nat.mod_self]
      simp only [neg, add, if_true, if_pos hcancel]

theorem mul_infinity (c : Curve) (k : Nat) : c.mul k .infinity = .infinity := by
  induction k using Nat.strongRecOn with
  | ind k ih =>
      rw [mul]
      by_cases hk : k = 0
      · rw [if_pos hk]
      · have hhalf : c.mul (k / 2) (c.add .infinity .infinity) = .infinity :=
          ih (k / 2) (Nat.div_lt_self (Nat.pos_of_ne_zero hk) (by decide))
        simp only [if_neg hk, hhalf]
        split
        · rfl
        · rfl

/-- Solving for the base point with the number itself as the second scalar gives nothing. -/
theorem solve_base {c : Curve} (hp : 0 < c.p) (hbase : c.Bounded c.base) (e r : Nat) :
    c.solve e r (e % c.n) c.base = .infinity := by
  rw [solve, add_neg_self (bounded_mul hp _ hbase), mul_infinity]

end Curve

namespace Signature

/-- Solving for one of the two keys that fit scalars over a message hash gives the point at
infinity. -/
def SolvedAtInfinity (hash : Digest) (r s : Nat) : Prop :=
  ∃ y, secp256k1.evenRoot? r = some y ∧
    (secp256k1.solve (BigEndian.toNat hash.bytes) r s (.affine r y) = .infinity ∨
      secp256k1.solve (BigEndian.toNat hash.bytes) r s (secp256k1.neg (.affine r y)) = .infinity)

theorem candidates_eq_atInfinity {hash : Digest} {r s : Nat} (hsolved : SolvedAtInfinity hash r s) :
    candidates hash r s = .error .atInfinity := by
  obtain ⟨y, hroot, hsolved⟩ := hsolved
  unfold candidates
  simp only [hroot]
  rcases hsolved with hfirst | hsecond
  · rw [hfirst]
  · rw [hsecond]
    split
    next => rfl
    next => rfl

theorem candidates_eq_error_cases {hash : Digest} {r s : Nat} {fault : Fault}
    (hfault : candidates hash r s = .error fault) :
    fault = .malformed .noPublicKey ∨ fault = .atInfinity ∧ SolvedAtInfinity hash r s := by
  unfold candidates at hfault
  cases hroot : secp256k1.evenRoot? r with
  | none =>
      rw [hroot] at hfault
      cases hfault
      exact Or.inl rfl
  | some y =>
      simp only [hroot] at hfault
      split at hfault
      next hfirst =>
        cases hfault
        exact Or.inr ⟨rfl, y, hroot, Or.inl hfirst⟩
      next =>
        split at hfault
        next hsecond =>
          cases hfault
          exact Or.inr ⟨rfl, y, hroot, Or.inr hsecond⟩
        next => cases hfault

theorem withRecoveryId_eq_error_cases {hash : Digest} {key : PublicKey} {r s : Nat}
    {fault : Fault} (hfault : withRecoveryId hash key r s = .error fault) :
    (∃ flaw, fault = .malformed flaw) ∨ fault = .atInfinity ∧ SolvedAtInfinity hash r s := by
  rcases bind_eq_error_iff.mp hfault with hcandidates | ⟨⟨even, odd⟩, -, hchosen⟩
  · rcases candidates_eq_error_cases hcandidates with rfl | hinfinity
    · exact Or.inl ⟨_, rfl⟩
    · exact Or.inr hinfinity
  · left
    by_cases heven : even = key
    · simp only [if_pos heven] at hchosen
      cases hchosen
    · by_cases hodd : odd = key
      · simp only [if_neg heven, if_pos hodd] at hchosen
        cases hchosen
      · simp only [if_neg heven, if_neg hodd] at hchosen
        cases hchosen
        exact ⟨_, rfl⟩

/-- The signature is well-formed for the message, and recovery solves for a key at infinity. -/
def MeetsInfinity (message : Bytes) (signature : Signature) : Prop :=
  ∃ (hash : Digest) (r s : Nat), message = hash.bytes ∧ signature.scalars? = some (r, s) ∧
    (signature.v = 0 ∨ signature.v = 1) ∧ SolvedAtInfinity hash r s

theorem recover_eq_error_cases {message : Bytes} {signature : Signature} {fault : Fault}
    (hfault : signature.recover message = .error fault) :
    (∃ flaw, fault = .malformed flaw) ∨ fault = .atInfinity ∧ signature.MeetsInfinity message := by
  rcases bind_eq_error_iff.mp hfault with hlength | ⟨hash, hsized, hfault⟩
  · exact Or.inl (Datum.exists_flaw_of_sized hlength)
  have hmessage : message = hash.bytes := Datum.sized_eq_ok_iff.mp hsized
  cases hscalars : signature.scalars? with
  | none =>
      rw [hscalars] at hfault
      cases hfault
      exact Or.inl ⟨_, rfl⟩
  | some scalars =>
      obtain ⟨r, s⟩ := scalars
      simp only [hscalars] at hfault
      -- With either recovery id, the candidates decide.
      have hchosen : (signature.v = 0 ∨ signature.v = 1) → candidates hash r s = .error fault →
          (∃ flaw, fault = .malformed flaw) ∨
            fault = .atInfinity ∧ signature.MeetsInfinity message := by
        intro hv hcandidates
        rcases candidates_eq_error_cases hcandidates with rfl | ⟨rfl, hsolved⟩
        · exact Or.inl ⟨_, rfl⟩
        · exact Or.inr ⟨rfl, hash, r, s, hmessage, hscalars, hv, hsolved⟩
      by_cases heven : signature.v = 0
      · rw [if_pos heven] at hfault
        rcases bind_eq_error_iff.mp hfault with hcandidates | ⟨_, -, hkey⟩
        · exact hchosen (Or.inl heven) hcandidates
        · cases hkey
      · rw [if_neg heven] at hfault
        by_cases hodd : signature.v = 1
        · rw [if_pos hodd] at hfault
          rcases bind_eq_error_iff.mp hfault with hcandidates | ⟨_, -, hkey⟩
          · exact hchosen (Or.inr hodd) hcandidates
          · cases hkey
        · rw [if_neg hodd] at hfault
          cases hfault
          exact Or.inl ⟨_, rfl⟩

theorem recover_eq_atInfinity {message : Bytes} {signature : Signature}
    (hmeets : signature.MeetsInfinity message) :
    signature.recover message = .error .atInfinity := by
  obtain ⟨hash, r, s, rfl, hscalars, hv, hsolved⟩ := hmeets
  have hcandidates := candidates_eq_atInfinity hsolved
  rcases hv with hv | hv
  · simp [recover, messageHash, hscalars, hv, hcandidates]
  · simp [recover, messageHash, hscalars, hv, hcandidates]

/-- Every message whose number is not a multiple of the order has signatures that meet infinity:
they take the base point for the lift and the number itself for the second scalar. -/
theorem meetsInfinity_baseX (hash : Digest) {v : Int}
    (hhash : BigEndian.toNat hash.bytes % secp256k1.n ≠ 0) (hv : v = 0 ∨ v = 1) :
    MeetsInfinity hash.bytes
      ⟨secp256k1.baseX, (BigEndian.toNat hash.bytes % secp256k1.n : Nat), v⟩ := by
  have hrange : InRange secp256k1.baseX (BigEndian.toNat hash.bytes % secp256k1.n) :=
    ⟨by decide, by decide, Nat.pos_of_ne_zero hhash, Nat.mod_lt _ (by decide)⟩
  have hroot : secp256k1.evenRoot? secp256k1.baseX = some secp256k1.baseY := by decide +kernel
  have hbounded : secp256k1.Bounded secp256k1.base := by
    change secp256k1.baseY ≤ secp256k1.p
    decide
  refine ⟨hash, _, _, rfl, hrange.scalars?_eq v, hv, secp256k1.baseY, hroot, Or.inl ?_⟩
  exact Curve.solve_base (by decide) hbounded _ _

end Signature

/-- Signing fails as malformed input or at infinity. -/
theorem SecretKey.sign_eq_error_cases {secret : SecretKey} {hash : Digest} {fault : Fault}
    (hfault : secret.sign hash = .error fault) :
    (∃ flaw, fault = .malformed flaw) ∨ fault = .atInfinity := by
  rw [sign] at hfault
  cases hscalars : secret.scalars? hash with
  | none =>
      rw [hscalars] at hfault
      cases hfault
      exact Or.inl ⟨_, rfl⟩
  | some scalars =>
      obtain ⟨r, s⟩ := scalars
      rw [hscalars] at hfault
      exact (Signature.withRecoveryId_eq_error_cases hfault).imp_right And.left

end ShardLedger
