import ShardLedger.Keys.Ring
import ShardLedger.Proofs.Keyed
import ShardLedger.Proofs.Signature.Recovery

/-!
# Key rings as honest key services

A key ring that grew from the empty one files every public key under its own hash and
every private key under its own public key.  As a key service it therefore answers a
hash with a key of that hash, and a request to sign with a signature of the key.
-/

namespace ShardLedger

/-- A private key is read from its scalar. -/
theorem SecretKey.ofBytes_fixed (secret : SecretKey) :
    ofBytes (BigEndian.fixed 32 secret.scalar) = .ok secret := by
  have hlt : secret.scalar < 256 ^ 32 := Nat.lt_trans secret.lt_order (by decide)
  have hsized := Datum.sized_bytes "private key"
    (⟨BigEndian.fixed 32 secret.scalar, by simp⟩ : FixedBytes 32)
  rw [ofBytes, hsized, ok_bind]
  simp only [BigEndian.toNat_fixed_of_lt hlt]
  exact dif_pos ⟨secret.pos, secret.lt_order⟩

theorem SecretKey.one_lt_order : 1 < secp256k1.n := by
  decide

/-- The private key one. -/
def SecretKey.one : SecretKey :=
  ⟨1, Nat.one_pos, one_lt_order⟩

/-- A hash is answered with a key of that hash, and a request to sign with a signature that recovers
to the key. -/
structure KeyService.Honest (service : KeyService) : Prop where
  publicKeyOf : ∀ hash answer, service.publicKeyOf hash = .ok (some answer) →
    ∃ key : PublicKey, answer = key.bytes ∧ key.hash.bytes = hash
  sign : ∀ (key : PublicKey) (message : Digest) answer,
    service.sign key.bytes message.bytes = .ok answer →
      ∃ signature : FixedBytes 65, answer = signature.bytes ∧
        (Signature.ofFixedBytes signature).recover message.bytes = .ok key

namespace KeyRing

/-- The key rings that grow from the empty one by importing and removing keys. -/
inductive Reachable : KeyRing → Prop where
  | empty : Reachable {}
  | importKey {ring next : KeyRing} {secret : Bytes} {key : PublicKey} (hring : Reachable ring)
      (himport : ring.importKey secret = .ok (next, key)) : Reachable next
  | remove {ring next : KeyRing} {key : Bytes} (hring : Reachable ring)
      (hremove : ring.remove? key = some next) : Reachable next

/-- A key ring can take in every private key. -/
theorem Reachable.add {ring : KeyRing} (hring : ring.Reachable) (secret : SecretKey) :
    (ring.add secret).Reachable := by
  have himport : ring.importKey (BigEndian.fixed 32 secret.scalar) =
      .ok (ring.add secret, secret.publicKey) := by
    rw [KeyRing.importKey, SecretKey.ofBytes_fixed]
    rfl
  exact .importKey hring himport

/-- Every key is filed under what belongs to it. -/
structure Ordered (ring : KeyRing) : Prop where
  secrets : ∀ key secret, (key, secret) ∈ ring.secrets → secret.publicKey = key
  byHash : ∀ hash key, (hash, key) ∈ ring.byHash → PublicKey.hash key = hash

theorem Ordered.add {ring : KeyRing} (hring : ring.Ordered) (secret : SecretKey) :
    (ring.add secret).Ordered := by
  constructor
  · intro key secret' hmem
    rcases Keyed.eq_or_mem_of_mem_put hmem with heq | hmem
    · rw [Prod.mk.injEq] at heq
      rw [heq.1, heq.2]
    · exact hring.secrets key secret' hmem
  · intro hash key hmem
    rcases Keyed.eq_or_mem_of_mem_put hmem with heq | hmem
    · rw [Prod.mk.injEq] at heq
      rw [heq.1, heq.2]
    · exact hring.byHash hash key hmem

theorem Ordered.remove {ring next : KeyRing} (hring : ring.Ordered) {key : Bytes}
    (hremove : ring.remove? key = some next) : next.Ordered := by
  obtain ⟨key, -, hremove⟩ := Option.bind_eq_some_iff.mp hremove
  obtain ⟨secret, -, hremove⟩ := Option.bind_eq_some_iff.mp hremove
  obtain rfl := Option.some.inj hremove
  constructor
  · intro key' secret' hmem
    exact hring.secrets key' secret' (Keyed.mem_of_mem_erase hmem)
  · intro hash key' hmem
    exact hring.byHash hash key' (Keyed.mem_of_mem_erase hmem)

theorem exists_secret_of_importKey {ring next : KeyRing} {secret : Bytes} {key : PublicKey}
    (himport : ring.importKey secret = .ok (next, key)) :
    ∃ secret : SecretKey, next = ring.add secret := by
  obtain ⟨secret, -, hadd⟩ := bind_eq_ok_iff.mp himport
  rw [pure_eq_ok, Except.ok.injEq, Prod.mk.injEq] at hadd
  exact ⟨secret, hadd.1.symm⟩

theorem Reachable.ordered {ring : KeyRing} (hring : ring.Reachable) : ring.Ordered := by
  induction hring with
  | empty =>
      constructor
      · intro _ _ hmem
        exact absurd hmem List.not_mem_nil
      · intro _ _ hmem
        exact absurd hmem List.not_mem_nil
  | importKey _ himport ih =>
      obtain ⟨secret, rfl⟩ := exists_secret_of_importKey himport
      exact ih.add secret
  | remove _ hremove ih => exact ih.remove hremove

/-- A key ring signs with the private key that it keeps for a public key. -/
theorem sign_eq_bind {ring : KeyRing} {key : Bytes} {secret : SecretKey}
    (hring : ring.secret? key = some secret) (message : Digest) :
    ring.sign key message.bytes = secret.sign message >>= Signature.toBytes := by
  simp only [sign, hring, Signature.messageHash, Datum.sized_bytes, ok_bind]

/-- What a key ring signs was signed by a private key that is filed under the public key. -/
theorem exists_signature_of_sign {ring : KeyRing} {key : PublicKey} {message : Digest}
    {bytes : FixedBytes 65} (hsign : ring.sign key.bytes message.bytes = .ok bytes) :
    ∃ secret signature, (key, secret) ∈ ring.secrets ∧
      SecretKey.sign secret message = .ok signature ∧ signature.toBytes = .ok bytes := by
  cases hsecret : ring.secret? key.bytes with
  | none =>
      rw [sign, hsecret] at hsign
      cases hsign
  | some secret =>
      rw [sign_eq_bind hsecret] at hsign
      obtain ⟨signature, hsigned, hbytes⟩ := bind_eq_ok_iff.mp hsign
      obtain ⟨key', hkey', hget⟩ := Option.bind_eq_some_iff.mp hsecret
      rw [FixedBytes.ofBytes?_bytes, Option.some.injEq] at hkey'
      subst hkey'
      exact ⟨secret, signature, Keyed.mem_of_get? hget, hsigned, hbytes⟩

theorem Ordered.honest {ring : KeyRing} (hring : ring.Ordered) : ring.service.Honest := by
  constructor
  · intro hash answer hanswer
    obtain ⟨key, hkey, rfl⟩ := Option.map_eq_some_iff.mp (Except.ok.inj hanswer)
    obtain ⟨hash', hhash, hget⟩ := Option.bind_eq_some_iff.mp hkey
    rw [FixedBytes.ofBytes?_eq_some_iff] at hhash
    have hfiled := hring.byHash hash' key (Keyed.mem_of_get? hget)
    exact ⟨key, rfl, by rw [hhash, hfiled]⟩
  · intro key message answer hanswer
    obtain ⟨bytes, hsign, rfl⟩ := map_eq_ok_iff.mp hanswer
    obtain ⟨secret, signature, hmem, hsigned, hbytes⟩ := exists_signature_of_sign hsign
    obtain ⟨hfits, hrecover⟩ := SecretKey.recover_of_sign hsigned
    obtain ⟨bytes', hbytes', hread⟩ := hfits.exists_toBytes
    have hsame : bytes' = bytes := Except.ok.inj (hbytes'.symm.trans hbytes)
    rw [← hsame]
    exact ⟨bytes', rfl, by rw [hread, hrecover, hring.secrets key secret hmem]⟩

theorem Reachable.honest {ring : KeyRing} (hring : ring.Reachable) : ring.service.Honest :=
  hring.ordered.honest

/-! ## Keys that are held -/

/-- As a service, a key ring that keeps a private key answers with the key's signature. -/
theorem sign_of_secret? {ring : KeyRing} {key : Bytes} {secret : SecretKey} {message : Digest}
    {signature : Signature} {bytes : FixedBytes 65} (hring : ring.secret? key = some secret)
    (hsign : secret.sign message = .ok signature) (hbytes : signature.toBytes = .ok bytes) :
    ring.service.sign key message.bytes = .ok bytes.bytes := by
  simp only [service, sign_eq_bind hring, hsign, hbytes, ok_bind, map_ok]

/-- A key ring keeps a private key, both under its public key and under the hash of that. -/
structure Holds (ring : KeyRing) (secret : SecretKey) : Prop where
  byKey : ring.secret? secret.publicKey.bytes = some secret
  byHash : ring.publicKey? secret.publicKey.hash.bytes = some secret.publicKey

theorem holds_add (ring : KeyRing) (secret : SecretKey) : (ring.add secret).Holds secret := by
  constructor
  · simp only [secret?, add, FixedBytes.ofBytes?_bytes, Option.bind_eq_bind, Option.bind_some,
      Keyed.get?_put_self]
  · simp only [publicKey?, add, FixedBytes.ofBytes?_bytes, Option.bind_eq_bind, Option.bind_some,
      Keyed.get?_put_self]

end KeyRing

end ShardLedger
