import Mathlib.Data.Set.Insert
import ShardLedger.Proofs.Script.Standard
import ShardLedger.Proofs.Signature.Complement

/-!
# Malleable signatures

Whoever sees a signature can write down its complement, and a signature check takes both.
For the same message, key and first scalar it takes nothing else.
-/

namespace ShardLedger

namespace Signature

/-- The second scalars and recovery ids with which a first scalar recovers to a key. -/
def pairs (hash : Digest) (r : Int) (key : PublicKey) : Set (Int × Int) :=
  { pair | recover hash.bytes ⟨r, pair.1, pair.2⟩ = .ok key }

theorem pairs_eq {hash : Digest} {r s v : Int} {key : PublicKey}
    (hrecover : recover hash.bytes ⟨r, s, v⟩ = .ok key) :
    pairs hash r key = { (s, v), ((secp256k1.n : Int) - s, 1 - v) } := by
  obtain ⟨_, _, _, _, hby⟩ := exists_recoversBy hrecover
  have hv : v = 0 ∨ v = 1 := hby.v_eq
  have hcomplement := recover_complement_of_ok hrecover
  rw [complement_eq hv] at hcomplement
  ext ⟨s', v'⟩
  rw [Set.mem_insert_iff, Set.mem_singleton_iff]
  constructor
  · intro (hother : recover hash.bytes ⟨r, s', v'⟩ = .ok key)
    rcases eq_or_eq_complement hrecover hother rfl with hsame | hsame
    · obtain ⟨-, rfl, rfl⟩ := (mk.injEq ..).mp hsame
      exact Or.inl rfl
    · rw [complement_eq hv] at hsame
      obtain ⟨-, rfl, rfl⟩ := (mk.injEq ..).mp hsame
      exact Or.inr rfl
  · rintro (hsame | hsame)
    · obtain ⟨rfl, rfl⟩ := Prod.mk.inj hsame
      exact hrecover
    · obtain ⟨rfl, rfl⟩ := Prod.mk.inj hsame
      exact hcomplement

end Signature

namespace Script

theorem checkSignature_complement {b b' : FixedBytes 65}
    (hcomplement : Signature.ofFixedBytes b' = (Signature.ofFixedBytes b).complement)
    (message key : Bytes) :
    checkSignature message b'.bytes key = checkSignature message b.bytes key := by
  unfold checkSignature
  rw [FixedBytes.ofBytes?_bytes, FixedBytes.ofBytes?_bytes]
  cases FixedBytes.ofBytes? 64 key with
  | none => rfl
  | some signer =>
      simp only [hcomplement]
      rcases Signature.recover_complement_cases message (Signature.ofFixedBytes b) with
        hsame | ⟨hbad, hbad'⟩
      · rw [hsame]
      · rw [hbad, hbad']
        rfl

/-- With the first scalar of a signature that is taken, its complement is, and no other. -/
theorem checkSignature_eq_true_iff_of_r_eq {message key : Bytes} {b b' : FixedBytes 65}
    (hr : (Signature.ofFixedBytes b').r = (Signature.ofFixedBytes b).r)
    (hcheck : checkSignature message b.bytes key = .ok true) :
    checkSignature message b'.bytes key = .ok true ↔
      Signature.ofFixedBytes b' = Signature.ofFixedBytes b ∨
        Signature.ofFixedBytes b' = (Signature.ofFixedBytes b).complement := by
  obtain ⟨s, k, hs, rfl, hrecover⟩ := checkSignature_eq_true_iff.mp hcheck
  obtain rfl := FixedBytes.ext hs
  obtain ⟨hash, rfl⟩ := Signature.exists_hash_of_recover hrecover
  constructor
  · intro hcheck'
    obtain ⟨s', k', hs', hk', hrecover'⟩ := checkSignature_eq_true_iff.mp hcheck'
    obtain rfl := FixedBytes.ext hs'
    obtain rfl := FixedBytes.ext hk'
    exact Signature.eq_or_eq_complement hrecover hrecover' hr
  · rintro (hsame | hcomplement)
    · refine checkSignature_eq_true_iff.mpr ⟨b', k, rfl, rfl, ?_⟩
      rw [hsame, hrecover]
    · rw [checkSignature_complement hcomplement, hcheck]

/-! ## All signatures of a key -/

/-- For a message and a first scalar, a public key has a signature and its complement, or none.  The
complement of any signature recovers to the same key or fails for the same cause, so that a check
of signatures takes both or neither; and it takes no third one with their first scalar. -/
theorem signatures_of_key :
    (∀ (hash : Digest) (r : Int) (key : PublicKey), Signature.pairs hash r key = ∅ ∨
      ∃ s v : Int, 0 < s ∧ s < secp256k1.n ∧ (v = 0 ∨ v = 1) ∧
        Signature.complement ⟨r, s, v⟩ = ⟨r, secp256k1.n - s, 1 - v⟩ ∧
        Signature.pairs hash r key = { (s, v), ((secp256k1.n : Int) - s, 1 - v) }) ∧
    (∀ (message : Bytes) (signature : Signature),
      signature.complement.recover message = signature.recover message ∨
        signature.recover message = refuse (.badRecoveryId signature.v) ∧
        signature.complement.recover message = refuse (.badRecoveryId signature.complement.v)) ∧
    (∀ b : FixedBytes 65, (Signature.ofFixedBytes b).s ≤ secp256k1.n →
      ∃ b', (Signature.ofFixedBytes b).complement.toBytes = .ok b' ∧
        Signature.ofFixedBytes b' = (Signature.ofFixedBytes b).complement ∧
        ∀ message key, checkSignature message b'.bytes key = checkSignature message b.bytes key) ∧
    (∀ (message key : Bytes) (b b' : FixedBytes 65),
      (Signature.ofFixedBytes b').r = (Signature.ofFixedBytes b).r →
      checkSignature message b.bytes key = .ok true →
      (checkSignature message b'.bytes key = .ok true ↔
        Signature.ofFixedBytes b' = Signature.ofFixedBytes b ∨
          Signature.ofFixedBytes b' = (Signature.ofFixedBytes b).complement)) := by
  refine ⟨?_, Signature.recover_complement_cases, ?_, ?_⟩
  · intro hash r key
    rcases Set.eq_empty_or_nonempty (Signature.pairs hash r key) with hempty | ⟨⟨s, v⟩, hrecover⟩
    · exact Or.inl hempty
    · obtain ⟨_, s', _, _, hby⟩ := Signature.exists_recoversBy hrecover
      obtain rfl : s = s' := hby.s_eq
      have hpos : 0 < (s' : Int) := Int.natCast_pos.mpr hby.inRange.s_pos
      have hlt : (s' : Int) < secp256k1.n := Int.ofNat_lt.mpr hby.inRange.s_lt
      exact Or.inr ⟨s', v, hpos, hlt, hby.v_eq, Signature.complement_eq hby.v_eq,
        Signature.pairs_eq hrecover⟩
  · intro b hs
    obtain ⟨b', hbytes, hcomplement⟩ := (Signature.fits_complement hs).exists_toBytes
    exact ⟨b', hbytes, hcomplement, checkSignature_complement hcomplement⟩
  · intro message key b b' hr hcheck
    exact checkSignature_eq_true_iff_of_r_eq hr hcheck

/-- A key whose first coordinate is one: over the hash zero, its signatures with one for the first
scalar have one or its negative for the second. -/
def unitKey : PublicKey :=
  (Point.affine 1 0x4218f20ae6c646b363db68605822fb14264ca8d2587fdd6fbc750d587e76a7ee).toBytes

/-- The signature of ones. -/
def unitSignature : FixedBytes 65 :=
  ⟨BigEndian.fixed 32 1 ++ BigEndian.fixed 32 1 ++ [0], by simp⟩

/-- Its complement. -/
def unitComplement : FixedBytes 65 :=
  ⟨BigEndian.fixed 32 1 ++ BigEndian.fixed 32 (secp256k1.n - 1) ++ [1], by simp⟩

theorem signatures_of_key_unit :
    (∃ b', (Signature.ofFixedBytes unitSignature).complement.toBytes = .ok b' ∧
      Signature.ofFixedBytes b' = (Signature.ofFixedBytes unitSignature).complement ∧
      ∀ message key,
        checkSignature message b'.bytes key = checkSignature message unitSignature.bytes key) ∧
    checkSignature (FixedBytes.zero 32).bytes unitSignature.bytes unitKey.bytes = .ok true ∧
    checkSignature (FixedBytes.zero 32).bytes unitComplement.bytes unitKey.bytes = .ok true := by
  obtain ⟨-, -, hwritten, honly⟩ := signatures_of_key
  have hcheck : checkSignature (FixedBytes.zero 32).bytes unitSignature.bytes unitKey.bytes =
      .ok true := by
    decide +kernel
  have hr : (Signature.ofFixedBytes unitComplement).r =
      (Signature.ofFixedBytes unitSignature).r := by
    decide +kernel
  have hcomplement : Signature.ofFixedBytes unitComplement =
      (Signature.ofFixedBytes unitSignature).complement := by
    decide +kernel
  exact ⟨hwritten unitSignature (by decide +kernel), hcheck,
    (honly _ _ _ _ hr hcheck).mpr (Or.inr hcomplement)⟩

end Script

end ShardLedger
