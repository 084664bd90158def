import ShardLedger.Parcel.Signing
import ShardLedger.Proofs.Keys.Ring
import ShardLedger.Proofs.Parcel.Document
import ShardLedger.Proofs.Signature.Attempt

/-!
# Signing a parcel

A parcel can be signed with a private key in one step, in two steps, or through a key
service.  With a key ring as the service, all of them give the same signed parcel, which
names the account of the private key as its signer.  An arbitrary service can make
signing fail, but it cannot have the parcel signed in the name of another key.
-/

namespace ShardLedger

theorem SignedParcel.ofSignature_unplaced (parcel : Parcel) (signature : Signature) :
    ofSignature parcel signature .null none .null = .ok ⟨parcel, signature, {}⟩ := rfl

namespace Parcel

/-- Signing through a service succeeds when its answer recovers to the key that was asked for. -/
theorem signWith_eq_ok_iff {parcel : Parcel} {service : KeyService} {key : Bytes}
    {signed : SignedParcel} :
    parcel.signWith service key = .ok signed ↔
      ∃ (message : Digest) (answer : Bytes) (signature : Signature) (signer : PublicKey),
        parcel.hash = .ok message ∧ service.sign key message.bytes = .ok answer ∧
        Signature.ofBytes answer = .ok signature ∧
        signature.recover message.bytes = .ok signer ∧ signer.bytes = key ∧
        signed = ⟨parcel, signature, {}⟩ := by
  simp only [signWith, bind_eq_ok_iff]
  constructor
  · rintro ⟨message, hmessage, answer, hanswer, signature, hsignature, signer, hsigner, hsigned⟩
    by_cases hkey : signer.bytes = key
    · rw [if_neg (not_not.mpr hkey), SignedParcel.ofSignature_unplaced, Except.ok.injEq] at hsigned
      exact ⟨message, answer, signature, signer, hmessage, hanswer, hsignature, hsigner, hkey,
        hsigned.symm⟩
    · rw [if_pos hkey] at hsigned
      cases hsigned
  · rintro ⟨message, answer, signature, signer, hmessage, hanswer, hsignature, hsigner, hkey, rfl⟩
    refine ⟨message, hmessage, answer, hanswer, signature, hsignature, signer, hsigner, ?_⟩
    rw [if_neg (not_not.mpr hkey), SignedParcel.ofSignature_unplaced]

/-- The parcel with a signature is the one that was signed, and its signer is the key that was
asked for. -/
theorem signer_of_signWith {parcel : Parcel} {service : KeyService} {key : Bytes}
    {signed : SignedParcel} (hsigned : parcel.signWith service key = .ok signed) :
    signed.unsigned = parcel ∧
      ∃ signer, signed.signerKey = .ok signer ∧ signer.bytes = key := by
  obtain ⟨message, -, signature, signer, hmessage, -, -, hsigner, hkey, rfl⟩ :=
    signWith_eq_ok_iff.mp hsigned
  refine ⟨rfl, signer, ?_, hkey⟩
  simp only [SignedParcel.signerKey, hmessage, hsigner, ok_bind]

end Parcel

/-- A parcel as a private key signs it: the signature is in normal form, and the parcel names the
key and its account as the signer, just as recovery finds them. -/
structure SignedParcel.SignedBy (signed : SignedParcel) (secret : SecretKey) : Prop where
  normal : signed.signature.Normal
  signerKey : signed.signerKey = .ok secret.publicKey
  signerAccountId : signed.signerAccountId = .ok secret.publicKey.accountId
  recoveredKey : recoverSignerKey signed = .ok secret.publicKey
  recoveredAccountId : recoverSignerAccountId signed = .ok secret.publicKey.accountId

namespace Parcel

section

variable {parcel : Parcel} {hash : Digest} {secretBytes : Bytes} {secret : SecretKey}
  {signature : Signature}

theorem signedBy_of_sign (hhash : parcel.hash = .ok hash)
    (hsign : secret.sign hash = .ok signature) :
    SignedParcel.SignedBy ⟨parcel, signature, {}⟩ secret := by
  obtain ⟨-, hrecover⟩ := SecretKey.recover_of_sign hsign
  have hkey : SignedParcel.signerKey ⟨parcel, signature, {}⟩ = .ok secret.publicKey := by
    simp only [SignedParcel.signerKey, hhash, hrecover, ok_bind]
  have hrecovered : recoverSignerKey ⟨parcel, signature, {}⟩ = .ok secret.publicKey := by
    simp only [recoverSignerKey, hhash, hrecover, ok_bind]
  exact
    { normal := SecretKey.normal_of_sign hsign
      signerKey := hkey
      signerAccountId := by rw [SignedParcel.signerAccountId, hkey, map_ok]
      recoveredKey := hrecovered
      recoveredAccountId := by rw [recoverSignerAccountId, hrecovered, map_ok] }

theorem signWith_service (hhash : parcel.hash = .ok hash)
    (hsign : secret.sign hash = .ok signature) {ring : KeyRing}
    (hring : ring.secret? secret.publicKey.bytes = some secret) :
    parcel.signWith ring.service secret.publicKey.bytes = .ok ⟨parcel, signature, {}⟩ := by
  obtain ⟨hfits, hrecover⟩ := SecretKey.recover_of_sign hsign
  obtain ⟨bytes, hbytes, hread⟩ := hfits.exists_toBytes
  have hsignature : Signature.ofBytes bytes.bytes = .ok signature := by
    rw [Signature.ofBytes, Datum.sized_bytes, ok_bind, hread, pure_eq_ok]
  exact signWith_eq_ok_iff.mpr ⟨hash, bytes.bytes, signature, secret.publicKey, hhash,
    KeyRing.sign_of_secret? hring hsign hbytes, hsignature, hrecover, rfl, rfl⟩

theorem signature_eq (hhash : parcel.hash = .ok hash)
    (hsign : Signature.sign hash.bytes secretBytes = .ok signature) :
    parcel.signature secretBytes = .ok signature := by
  rw [Parcel.signature, hhash, ok_bind, hsign]

theorem sign_eq (hhash : parcel.hash = .ok hash)
    (hsign : Signature.sign hash.bytes secretBytes = .ok signature) :
    parcel.sign secretBytes .null none .null = .ok ⟨parcel, signature, {}⟩ := by
  rw [Parcel.sign, hhash, ok_bind, hsign, ok_bind, SignedParcel.ofSignature_unplaced]

theorem exists_document_of_sign (hsettled : parcel.IsSettled) (htext : parcel.IsText)
    (hwritable : parcel.IsWritable) (hsign : secret.sign hash = .ok signature) :
    ∃ d, SignedParcel.toDatum ⟨parcel, signature, {}⟩ = .ok d ∧
      SignedParcel.ofDatum d = .ok ⟨parcel, signature, {}⟩ := by
  obtain ⟨hfits, -⟩ := SecretKey.recover_of_sign hsign
  exact SignedParcel.exists_toDatum
    { unsigned := hwritable
      settled := hsettled
      text := htext
      fits := hfits
      blockNumber := .inl rfl
      parcelIndex := .inl rfl }

end

/-- Whenever a private key signs the hash of a parcel, signing it at once, attaching the signature
to it, and signing it through a key ring with the private key give the same signed parcel.  It
names its signer, and is read back from its document.  Through any key service, a parcel is
signed by the key that was asked for or not at all. -/
theorem signing_paths_agree :
    (∀ (parcel : Parcel) (secretBytes : Bytes) (secret : SecretKey),
      parcel.IsSettled → parcel.IsText → SecretKey.ofBytes secretBytes = .ok secret →
      ∃ hash, parcel.hash = .ok hash ∧
        ∀ signature, Signature.sign hash.bytes secretBytes = .ok signature →
          ∃ signed : SignedParcel, signed = ⟨parcel, signature, {}⟩ ∧ signed.SignedBy secret ∧
            parcel.sign secretBytes .null none .null = .ok signed ∧
            (do parcel.withSignature (← parcel.signature secretBytes) .null none .null) =
              .ok signed ∧
            (∀ ring : KeyRing, ring.secret? secret.publicKey.bytes = some secret →
              parcel.signWith ring.service secret.publicKey.bytes = .ok signed) ∧
            (parcel.IsWritable →
              ∃ d, signed.toDatum = .ok d ∧ SignedParcel.ofDatum d = .ok signed)) ∧
    ∀ (parcel : Parcel) (service : KeyService) (key : Bytes) (signed : SignedParcel),
      parcel.signWith service key = .ok signed →
        signed.unsigned = parcel ∧
          ∃ signer, signed.signerKey = .ok signer ∧ signer.bytes = key := by
  constructor
  · intro parcel secretBytes secret hsettled htext hsecret
    obtain ⟨bytes, hencode⟩ := exists_encode hsettled htext
    have hhash : parcel.hash = .ok (contentHash bytes) := by rw [hash, hencode, map_ok]
    refine ⟨contentHash bytes, hhash, ?_⟩
    intro signature hsigned
    have hsign : secret.sign (contentHash bytes) = .ok signature := by
      rw [← Signature.sign_eq _ hsecret, hsigned]
    have hattached : (do parcel.withSignature (← parcel.signature secretBytes) .null none .null) =
        .ok ⟨parcel, signature, {}⟩ := by
      rw [signature_eq hhash hsigned, ok_bind, withSignature, SignedParcel.ofSignature_unplaced]
    exact ⟨_, rfl, signedBy_of_sign hhash hsign, sign_eq hhash hsigned, hattached,
      fun _ => signWith_service hhash hsign,
      fun hwritable => exists_document_of_sign hsettled htext hwritable hsign⟩
  · intro parcel service key signed
    exact signer_of_signWith

/-- A parcel that creates a shard. -/
def firstShard : Parcel :=
  ⟨some 0, some 10, .standard, .createShard⟩

/-- The hash of the parcel. -/
def firstShardHash : Digest :=
  BigEndian.fixedBytes 32 0xff6f90aac6fe0e6ab23f151b7e9a01680474ef681b5adeaa95413ac05fb24889

theorem hash_firstShard : firstShard.hash = .ok firstShardHash := by
  have hencode : firstShard.encode = .ok _ := rfl
  rw [hash, hencode, map_ok]
  congr 1
  decide +kernel

/-- The private key one signs the hash, at its first nonce. -/
theorem exists_sign_firstShard :
    ∃ signature, SecretKey.one.sign firstShardHash = .ok signature :=
  SecretKey.exists_sign_of_suitsAt
    0x5d60e9ef63667c2580e7d44bd561f662ae3048b1d45a87d171948a138443abd2 254
    0xfd814bda2f86116be60ac0fae0fb6dd1bd73ff8c7e0f82685c3b04101d64efcd
    0xe122b6e21258e491c2d7f985292c327df747b4ee82b5e61d79239cd84e84c0c4
    (by decide +kernel) (by decide +kernel)

theorem signing_paths_agree_firstShard :
    ∃ signed : SignedParcel, signed.unsigned = firstShard ∧ signed.SignedBy SecretKey.one ∧
      firstShard.sign (BigEndian.fixed 32 1) .null none .null = .ok signed ∧
      (do firstShard.withSignature (← firstShard.signature (BigEndian.fixed 32 1)) .null none
            .null) = .ok signed ∧
      firstShard.signWith (KeyRing.add {} SecretKey.one).service SecretKey.one.publicKey.bytes =
        .ok signed ∧
      ∃ d, signed.toDatum = .ok d ∧ SignedParcel.ofDatum d = .ok signed := by
  have hsettled : firstShard.IsSettled := ⟨0, 10, rfl, rfl⟩
  have hwritable : firstShard.IsWritable := by
    have hlimit : 10 < 10 ^ Text.Numeral.digitLimit :=
      Nat.lt_of_lt_of_le (by decide : 10 < 10 ^ 2) (Nat.pow_le_pow_right (by decide) (by decide))
    refine ⟨?_, ?_, trivial⟩
    · rintro n ⟨⟩
      exact Nat.lt_trans (by decide) hlimit
    · rintro n ⟨⟩
      exact hlimit
  have hsecret : SecretKey.ofBytes (BigEndian.fixed 32 1) = .ok SecretKey.one :=
    SecretKey.ofBytes_fixed .one
  obtain ⟨hpaths, hservice⟩ := signing_paths_agree
  obtain ⟨hash, hhash, hsigned⟩ := hpaths firstShard _ SecretKey.one hsettled trivial hsecret
  obtain rfl : firstShardHash = hash := Except.ok.inj (hash_firstShard.symm.trans hhash)
  obtain ⟨signature, hsignature⟩ := exists_sign_firstShard
  rw [← Signature.sign_eq _ hsecret] at hsignature
  obtain ⟨signed, -, hby, hsign, hattached, hring, hread⟩ := hsigned signature hsignature
  have hthrough := hring _ (KeyRing.holds_add {} SecretKey.one).byKey
  exact ⟨signed, (hservice _ _ _ _ hthrough).1, hby, hsign, hattached, hthrough, hread hwritable⟩

end Parcel

end ShardLedger
