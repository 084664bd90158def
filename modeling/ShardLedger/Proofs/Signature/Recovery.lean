import ShardLedger.Proofs.Document.Field
import ShardLedger.Proofs.Signature.Written
import ShardLedger.Signature.Key

/-!
# Signatures recover to their signer

The scalars that signing finds are in range, and it answers only with a recovery id for
which recovery gives the public key of the signer back.
-/

namespace ShardLedger

namespace Signature

/-- The scalars can belong to a signature. -/
structure InRange (r s : Nat) : Prop where
  r_pos : 0 < r
  r_lt : r < secp256k1.n
  s_pos : 0 < s
  s_lt : s < secp256k1.n

theorem InRange.lower {r s : Nat} (hrange : InRange r s) : InRange r (Signature.lower s) := by
  obtain ⟨hr, hr', hs, hs'⟩ := hrange
  rw [Signature.lower]
  split
  next hhigh => exact ⟨hr, hr', by omega, by omega⟩
  next hlow => exact ⟨hr, hr', hs, hs'⟩

theorem InRange.scalars?_eq {r s : Nat} (hrange : InRange r s) (v : Int) :
    scalars? ⟨r, s, v⟩ = some (r, s) := by
  obtain ⟨hr, hr', hs, hs'⟩ := hrange
  have hbounds : 0 < (r : Int) ∧ (r : Int) < secp256k1.n ∧ 0 < (s : Int) ∧
      (s : Int) < secp256k1.n := by
    omega
  simp only [scalars?, if_pos hbounds, Int.toNat_natCast]

theorem InRange.fits {r s v : Nat} (hrange : InRange r s) (hv : v < 256) :
    Fits ⟨r, s, v⟩ := by
  have horder : secp256k1.n < 2 ^ 256 := by decide
  obtain ⟨-, hr, -, hs⟩ := hrange
  refine ⟨Int.natCast_nonneg r, ?_, Int.natCast_nonneg s, ?_, Int.natCast_nonneg v, ?_⟩
  · exact Int.ofNat_lt.mpr (Nat.lt_trans hr horder)
  · exact Int.ofNat_lt.mpr (Nat.lt_trans hs horder)
  · exact Int.ofNat_lt.mpr hv

theorem inRange_of_signWith? {e secret nonce r s : Nat}
    (hsign : secp256k1.signWith? e secret nonce = some (r, s)) : InRange r s := by
  have horder : 0 < secp256k1.n := by decide
  unfold Curve.signWith? at hsign
  split at hsign
  next => cases hsign
  next x _ _ =>
    rw [Option.ite_none_left_eq_some] at hsign
    obtain ⟨hnonzero, hscalars⟩ := hsign
    cases hscalars
    rw [not_or] at hnonzero
    exact ⟨Nat.pos_of_ne_zero hnonzero.1, Nat.mod_lt _ horder, Nat.pos_of_ne_zero hnonzero.2,
      Nat.mod_lt _ horder⟩

theorem inRange_of_attempt? {e secret r s : Nat} {generator : NonceGenerator}
    (hattempt : attempt? e secret generator = some (r, s)) : InRange r s := by
  simp only [attempt?, Option.ite_none_right_eq_some] at hattempt
  exact inRange_of_signWith? hattempt.2

theorem inRange_of_firstScalars? {e secret count r s : Nat} {generator : NonceGenerator}
    (hfirst : firstScalars? e secret count generator = some (r, s)) : InRange r s := by
  induction count generalizing generator with
  | zero => cases hfirst
  | succ count ih =>
      rw [firstScalars?] at hfirst
      split at hfirst
      next scalars hattempt =>
        rw [hfirst] at hattempt
        exact inRange_of_attempt? hattempt
      next => exact ih hfirst

/-- Recovery takes the candidate that the recovery id names. -/
theorem InRange.recover_eq {hash : Digest} {r s : Nat} (hrange : InRange r s)
    {even odd : PublicKey} (hcandidates : candidates hash r s = .ok (even, odd)) :
    recover hash.bytes ⟨r, s, 0⟩ = .ok even ∧ recover hash.bytes ⟨r, s, 1⟩ = .ok odd := by
  constructor
  · simp [recover, messageHash, hrange.scalars?_eq, hcandidates]
  · simp [recover, messageHash, hrange.scalars?_eq, hcandidates]

/-- The recovery id that is found names the candidate that is the key. -/
theorem withRecoveryId_cases {hash : Digest} {key : PublicKey} {r s : Nat} {signature : Signature}
    (hsign : withRecoveryId hash key r s = .ok signature) :
    ∃ even odd, candidates hash r s = .ok (even, odd) ∧
      (even = key ∧ signature = ⟨r, s, 0⟩ ∨ odd = key ∧ signature = ⟨r, s, 1⟩) := by
  obtain ⟨⟨even, odd⟩, hcandidates, hchosen⟩ := bind_eq_ok_iff.mp hsign
  refine ⟨even, odd, hcandidates, ?_⟩
  by_cases hkey : even = key
  · simp only [if_pos hkey, pure_eq_ok, Except.ok.injEq] at hchosen
    exact Or.inl ⟨hkey, hchosen.symm⟩
  · simp only [if_neg hkey] at hchosen
    by_cases hkey' : odd = key
    · simp only [if_pos hkey', pure_eq_ok, Except.ok.injEq] at hchosen
      exact Or.inr ⟨hkey', hchosen.symm⟩
    · rw [if_neg hkey'] at hchosen
      cases hchosen

theorem recover_of_withRecoveryId {hash : Digest} {key : PublicKey} {r s : Nat}
    (hrange : InRange r s) {signature : Signature}
    (hsign : withRecoveryId hash key r s = .ok signature) :
    signature.Fits ∧ signature.recover hash.bytes = .ok key := by
  obtain ⟨even, odd, hcandidates, hchosen⟩ := withRecoveryId_cases hsign
  obtain ⟨heven, hodd⟩ := hrange.recover_eq hcandidates
  rcases hchosen with ⟨rfl, rfl⟩ | ⟨rfl, rfl⟩
  · exact ⟨hrange.fits (v := 0) (by decide), heven⟩
  · exact ⟨hrange.fits (v := 1) (by decide), hodd⟩

/-! ## Signatures in normal form -/

/-- Both scalars are in range, the second one in the lower half, and the recovery id names one of
two candidates. -/
structure Normal (signature : Signature) : Prop where
  r_pos : 1 ≤ signature.r
  r_lt : signature.r < secp256k1.n
  s_pos : 1 ≤ signature.s
  s_le : signature.s ≤ (secp256k1.n / 2 : Nat)
  v_eq : signature.v = 0 ∨ signature.v = 1

theorem lower_le (s : Nat) : lower s ≤ secp256k1.n / 2 := by
  rw [lower]
  split
  next hhigh => omega
  next hlow => omega

theorem normal_of_withRecoveryId {hash : Digest} {key : PublicKey} {r s : Nat}
    (hrange : InRange r s) (hlow : s ≤ secp256k1.n / 2) {signature : Signature}
    (hsign : withRecoveryId hash key r s = .ok signature) : signature.Normal := by
  have hnormal : ∀ v : Int, v = 0 ∨ v = 1 → Normal ⟨r, s, v⟩ := by
    intro v hv
    obtain ⟨hr, hr', hs, -⟩ := hrange
    exact ⟨Int.ofNat_le.mpr hr, Int.ofNat_lt.mpr hr', Int.ofNat_le.mpr hs, Int.ofNat_le.mpr hlow,
      hv⟩
  obtain ⟨even, odd, -, ⟨-, rfl⟩ | ⟨-, rfl⟩⟩ := withRecoveryId_cases hsign
  · exact hnormal 0 (.inl rfl)
  · exact hnormal 1 (.inr rfl)

end Signature

/-- What a private key signs is made of scalars in range, of which the second one was lowered. -/
theorem SecretKey.exists_scalars_of_sign {secret : SecretKey} {hash : Digest}
    {signature : Signature} (hsign : secret.sign hash = .ok signature) :
    ∃ r s, Signature.InRange r s ∧
      Signature.withRecoveryId hash secret.publicKey r (Signature.lower s) = .ok signature := by
  rw [sign] at hsign
  cases hscalars : secret.scalars? hash with
  | none =>
      rw [hscalars] at hsign
      cases hsign
  | some scalars =>
      obtain ⟨r, s⟩ := scalars
      rw [hscalars] at hsign
      exact ⟨r, s, Signature.inRange_of_firstScalars? hscalars, hsign⟩

/-- What a private key signs fits the byte form and recovers to its public key. -/
theorem SecretKey.recover_of_sign {secret : SecretKey} {hash : Digest} {signature : Signature}
    (hsign : secret.sign hash = .ok signature) :
    signature.Fits ∧ signature.recover hash.bytes = .ok secret.publicKey := by
  obtain ⟨r, s, hrange, hid⟩ := exists_scalars_of_sign hsign
  exact Signature.recover_of_withRecoveryId hrange.lower hid

theorem SecretKey.normal_of_sign {secret : SecretKey} {hash : Digest} {signature : Signature}
    (hsign : secret.sign hash = .ok signature) : signature.Normal := by
  obtain ⟨r, s, hrange, hid⟩ := exists_scalars_of_sign hsign
  exact Signature.normal_of_withRecoveryId hrange.lower (Signature.lower_le s) hid

theorem Signature.sign_eq {secretBytes : Bytes} {secret : SecretKey} (hash : Digest)
    (hsecret : SecretKey.ofBytes secretBytes = .ok secret) :
    Signature.sign hash.bytes secretBytes = secret.sign hash := by
  simp only [Signature.sign, messageHash, Datum.sized_bytes, hsecret, ok_bind]

end ShardLedger
