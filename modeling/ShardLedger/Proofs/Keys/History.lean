import ShardLedger.Proofs.Keys.Ring
import ShardLedger.Proofs.Signature.Infinity

/-!
# What a key ring remembers

A key ring keeps two indexes that its calls update one after the other: private keys by
public key, and public keys by hash.  After any history of calls it holds exactly the
keys that came in and were not removed since, and as long as none of them share a hash,
a hash leads to a key exactly when the key is held and has this hash.
-/

namespace ShardLedger

/-! ## Calls -/

/-- Something that changes a key ring.  A key that is created was drawn at random. -/
inductive RingCall where
  | importKey (secret : Bytes)
  | createKey (drawn : SecretKey)
  | removeKey (key : Bytes)

namespace RingCall

/-- The key ring that a call leaves, whether it succeeds or fails. -/
def leave (ring : KeyRing) : RingCall → KeyRing
  | importKey secret =>
    match ring.importKey secret with
    | .ok (next, _) => next
    | .error _ => ring
  | createKey drawn => ring.add drawn
  | removeKey key => (ring.remove? key).getD ring

/-- The key ring that calls leave of the empty one; failures do not end the history. -/
def leaveAll (calls : List RingCall) : KeyRing :=
  calls.foldl leave {}

/-- A call that succeeds brings in a public key. -/
inductive Brings : RingCall → PublicKey → Prop
  | importKey {b : Bytes} {secret : SecretKey} (hread : SecretKey.ofBytes b = .ok secret) :
      Brings (.importKey b) secret.publicKey
  | createKey (drawn : SecretKey) : Brings (.createKey drawn) drawn.publicKey

/-- Some call brings in a public key. -/
def Brought (calls : List RingCall) (key : PublicKey) : Prop :=
  ∃ call ∈ calls, call.Brings key

/-- Some call brings in a public key, and no later one removes it. -/
def Held (calls : List RingCall) (key : PublicKey) : Prop :=
  ∃ earlier call later, calls = earlier ++ call :: later ∧ call.Brings key ∧
    .removeKey key.bytes ∉ later

/-- Public keys that calls bring in share a hash only if they are the same. -/
def HashesApart (calls : List RingCall) : Prop :=
  ∀ key other, Brought calls key → Brought calls other → key.hash = other.hash → key = other

variable {calls : List RingCall} {call : RingCall} {key : PublicKey}

theorem leaveAll_concat (calls : List RingCall) (call : RingCall) :
    leaveAll (calls ++ [call]) = call.leave (leaveAll calls) := by
  rw [leaveAll, List.foldl_append, List.foldl_cons, List.foldl_nil, ← leaveAll]

theorem not_held_nil (key : PublicKey) : ¬Held [] key := by
  rintro ⟨earlier, call, later, hcalls, -⟩
  exact List.append_ne_nil_of_right_ne_nil _ (List.cons_ne_nil _ _) hcalls.symm

theorem held_concat_iff :
    Held (calls ++ [call]) key ↔
      call.Brings key ∨ Held calls key ∧ call ≠ .removeKey key.bytes := by
  constructor
  · rintro ⟨earlier, bringing, later, hcalls, hbrings, hkept⟩
    rcases List.eq_nil_or_concat later with rfl | ⟨middle, last, rfl⟩
    · obtain ⟨-, hcall⟩ := List.append_inj' hcalls rfl
      cases hcall
      exact Or.inl hbrings
    · rw [List.concat_eq_append] at hcalls hkept
      rw [← List.cons_append, ← List.append_assoc] at hcalls
      obtain ⟨hearlier, hcall⟩ := List.append_inj' hcalls rfl
      cases hcall
      rw [List.mem_append, not_or, List.mem_singleton] at hkept
      exact Or.inr ⟨⟨earlier, bringing, middle, hearlier, hbrings, hkept.1⟩, Ne.symm hkept.2⟩
  · rintro (hbrings | ⟨⟨earlier, bringing, later, rfl, hbrings, hkept⟩, hcall⟩)
    · exact ⟨calls, call, [], rfl, hbrings, List.not_mem_nil⟩
    · refine ⟨earlier, bringing, later ++ [call], by simp, hbrings, ?_⟩
      rw [List.mem_append, not_or, List.mem_singleton]
      exact ⟨hkept, Ne.symm hcall⟩

theorem Held.brought (hheld : Held calls key) : Brought calls key := by
  obtain ⟨earlier, call, later, rfl, hbrings, -⟩ := hheld
  exact ⟨call, by simp, hbrings⟩

theorem Brought.concat (hbrought : Brought calls key) : Brought (calls ++ [call]) key := by
  obtain ⟨bringing, hmem, hbrings⟩ := hbrought
  exact ⟨bringing, List.mem_append_left _ hmem, hbrings⟩

theorem HashesApart.of_concat (hapart : HashesApart (calls ++ [call])) : HashesApart calls := by
  intro key other hkey hother
  exact hapart key other hkey.concat hother.concat

end RingCall

/-! ## The two indexes -/

namespace KeyRing

variable {ring : KeyRing}

/-- A key ring without a public key. -/
def drop (ring : KeyRing) (key : PublicKey) : KeyRing :=
  ⟨Keyed.erase key ring.secrets, Keyed.erase key.hash ring.byHash⟩

theorem secret?_eq_none_iff {b : Bytes} :
    ring.secret? b = none ↔ ∀ held ∈ ring.keys, held.bytes ≠ b := by
  rw [secret?]
  cases hb : FixedBytes.ofBytes? 64 b with
  | none =>
      rw [FixedBytes.ofBytes?_eq_none_iff] at hb
      refine ⟨fun _ held _ hsame => hb ?_, fun _ => rfl⟩
      rw [← hsame, held.length_bytes]
  | some key =>
      rw [FixedBytes.ofBytes?_eq_some_iff] at hb
      subst hb
      change Keyed.get? key ring.secrets = none ↔ _
      rw [Keyed.get?_eq_none_iff]
      constructor
      · intro hmem held hheld hsame
        rw [FixedBytes.ext hsame] at hheld
        exact hmem hheld
      · intro hkeys hmem
        exact hkeys key hmem rfl

theorem exists_key_of_secret? {b : Bytes} {secret : SecretKey}
    (hsecret : ring.secret? b = some secret) :
    ∃ key ∈ ring.keys, b = key.bytes ∧ Keyed.get? key ring.secrets = some secret := by
  obtain ⟨key, hkey, hget⟩ := Option.bind_eq_some_iff.mp hsecret
  rw [FixedBytes.ofBytes?_eq_some_iff] at hkey
  exact ⟨key, List.mem_map_of_mem (Keyed.mem_of_get? hget), hkey, hget⟩

theorem remove?_cases (ring : KeyRing) (b : Bytes) :
    (ring.remove? b = none ∧ ∀ held ∈ ring.keys, held.bytes ≠ b) ∨
      ∃ key ∈ ring.keys, b = key.bytes ∧ ring.remove? b = some (ring.drop key) := by
  cases hsecret : ring.secret? b with
  | none =>
      refine Or.inl ⟨?_, secret?_eq_none_iff.mp hsecret⟩
      rw [remove?]
      cases hb : FixedBytes.ofBytes? 64 b with
      | none => rfl
      | some key =>
          have hget : Keyed.get? key ring.secrets = none := by
            rwa [secret?, hb] at hsecret
          simp only [Option.bind_eq_bind, Option.bind_some, hget, Option.bind_none]
  | some secret =>
      obtain ⟨key, hmem, rfl, hget⟩ := exists_key_of_secret? hsecret
      refine Or.inr ⟨key, hmem, rfl, ?_⟩
      simp only [remove?, FixedBytes.ofBytes?_bytes, Option.bind_eq_bind, Option.bind_some, hget]
      rfl

/-- Neither index lists anything twice. -/
structure Distinct (ring : KeyRing) : Prop where
  keys : ring.keys.Nodup
  hashes : (Keyed.keys ring.byHash).Nodup

/-- A hash leads to the held key that has it. -/
def FindsKeys (ring : KeyRing) : Prop :=
  ∀ hash key, Keyed.get? hash ring.byHash = some key ↔ key ∈ ring.keys ∧ PublicKey.hash key = hash

theorem mem_keys_add {secret : SecretKey} {key : PublicKey} :
    key ∈ (ring.add secret).keys ↔ key = secret.publicKey ∨ key ∈ ring.keys :=
  Keyed.mem_keys_put

theorem Distinct.mem_keys_drop (hring : ring.Distinct) {key other : PublicKey} :
    other ∈ (ring.drop key).keys ↔ other ≠ key ∧ other ∈ ring.keys := by
  rw [KeyRing.keys, KeyRing.drop, Keyed.keys_erase]
  exact hring.keys.mem_erase_iff

theorem Distinct.add (hring : ring.Distinct) (secret : SecretKey) : (ring.add secret).Distinct :=
  ⟨Keyed.nodup_keys_put hring.keys _ _, Keyed.nodup_keys_put hring.hashes _ _⟩

theorem Distinct.drop (hring : ring.Distinct) (key : PublicKey) : (ring.drop key).Distinct := by
  constructor
  · rw [KeyRing.keys, KeyRing.drop, Keyed.keys_erase]
    exact hring.keys.erase key
  · rw [KeyRing.drop, Keyed.keys_erase]
    exact hring.hashes.erase _

theorem FindsKeys.add (hring : ring.FindsKeys) {secret : SecretKey}
    (hapart : ∀ key ∈ ring.keys, key.hash = secret.publicKey.hash → key = secret.publicKey) :
    (ring.add secret).FindsKeys := by
  intro hash key
  rw [mem_keys_add]
  by_cases hhash : hash = secret.publicKey.hash
  · subst hhash
    rw [KeyRing.add, Keyed.get?_put_self, Option.some.injEq]
    constructor
    · rintro rfl
      exact ⟨Or.inl rfl, rfl⟩
    · rintro ⟨rfl | hmem, hsame⟩
      · rfl
      · exact (hapart key hmem hsame).symm
  · rw [KeyRing.add, Keyed.get?_put_of_ne hhash, hring]
    constructor
    · rintro ⟨hmem, hsame⟩
      exact ⟨Or.inr hmem, hsame⟩
    · rintro ⟨rfl | hmem, hsame⟩
      · exact absurd hsame.symm hhash
      · exact ⟨hmem, hsame⟩

theorem FindsKeys.drop (hring : ring.FindsKeys) (hdistinct : ring.Distinct) {key : PublicKey}
    (hapart : ∀ other ∈ ring.keys, other.hash = key.hash → other = key) :
    (ring.drop key).FindsKeys := by
  intro hash other
  rw [hdistinct.mem_keys_drop]
  by_cases hhash : hash = key.hash
  · subst hhash
    rw [KeyRing.drop, Keyed.get?_erase_self hdistinct.hashes]
    constructor
    · intro hnone
      cases hnone
    · rintro ⟨⟨hne, hmem⟩, hsame⟩
      exact absurd (hapart other hmem hsame) hne
  · rw [KeyRing.drop, Keyed.get?_erase_of_ne hhash, hring]
    constructor
    · rintro ⟨hmem, rfl⟩
      refine ⟨⟨?_, hmem⟩, rfl⟩
      rintro rfl
      exact hhash rfl
    · rintro ⟨⟨-, hmem⟩, hsame⟩
      exact ⟨hmem, hsame⟩

theorem FindsKeys.publicKey?_eq_some_iff (hring : ring.FindsKeys) {b : Bytes} {key : PublicKey} :
    ring.publicKey? b = some key ↔ key ∈ ring.keys ∧ key.hash.bytes = b := by
  rw [publicKey?]
  cases hb : FixedBytes.ofBytes? 32 b with
  | none =>
      rw [FixedBytes.ofBytes?_eq_none_iff] at hb
      refine iff_of_false (Option.some_ne_none key).symm ?_
      rintro ⟨-, rfl⟩
      exact hb key.hash.length_bytes
  | some hash =>
      rw [FixedBytes.ofBytes?_eq_some_iff] at hb
      subst hb
      change Keyed.get? hash ring.byHash = some key ↔ _
      rw [hring, FixedBytes.ext_iff]

end KeyRing

/-! ## What one call changes -/

namespace RingCall

/-- What a call may leave of a key ring. -/
inductive Change (ring : KeyRing) : RingCall → KeyRing → Prop
  | none {call : RingCall} (hbrings : ∀ key, ¬call.Brings key)
      (hremoves : ∀ key ∈ ring.keys, call ≠ .removeKey key.bytes) : Change ring call ring
  | added {call : RingCall} (secret : SecretKey)
      (hbrings : ∀ key, call.Brings key ↔ key = secret.publicKey) :
      Change ring call (ring.add secret)
  | dropped {key : PublicKey} (hmem : key ∈ ring.keys) :
      Change ring (.removeKey key.bytes) (ring.drop key)

variable {ring after : KeyRing} {calls : List RingCall} {call : RingCall} {key : PublicKey}

theorem change_leave (call : RingCall) (ring : KeyRing) : Change ring call (call.leave ring) := by
  cases call with
  | importKey b =>
      rw [leave, KeyRing.importKey]
      cases hread : SecretKey.ofBytes b with
      | error fault =>
          refine .none ?_ ?_
          · intro key hbrings
            cases hbrings with
            | importKey hread' =>
                rw [hread] at hread'
                cases hread'
          · intro key _ hcall
            cases hcall
      | ok secret =>
          refine .added secret ?_
          intro key
          constructor
          · intro hbrings
            cases hbrings with
            | importKey hread' =>
                rw [hread] at hread'
                cases hread'
                rfl
          · rintro rfl
            exact .importKey hread
  | createKey drawn =>
      refine .added drawn ?_
      intro key
      constructor
      · intro hbrings
        cases hbrings
        rfl
      · rintro rfl
        exact .createKey drawn
  | removeKey b =>
      rw [leave]
      rcases ring.remove?_cases b with ⟨hnone, habsent⟩ | ⟨key, hmem, rfl, hsome⟩
      · rw [hnone]
        refine .none ?_ ?_
        · intro key hbrings
          cases hbrings
        · intro key hmem hcall
          cases hcall
          exact habsent key hmem rfl
      · rw [hsome]
        exact .dropped hmem

theorem Change.distinct (hchange : Change ring call after) (hring : ring.Distinct) :
    after.Distinct := by
  cases hchange with
  | none hbrings hremoves => exact hring
  | added secret hbrings => exact hring.add secret
  | dropped hmem => exact hring.drop _

theorem Change.mem_keys_iff (hchange : Change ring call after) (hring : ring.Distinct) :
    key ∈ after.keys ↔ call.Brings key ∨ key ∈ ring.keys ∧ call ≠ .removeKey key.bytes := by
  cases hchange with
  | none hbrings hremoves =>
      constructor
      · intro hmem
        exact Or.inr ⟨hmem, hremoves key hmem⟩
      · rintro (hkey | ⟨hmem, -⟩)
        · exact absurd hkey (hbrings key)
        · exact hmem
  | added secret hbrings =>
      rw [KeyRing.mem_keys_add, hbrings, and_iff_left]
      rintro rfl
      cases (hbrings _).mpr rfl
  | @dropped removed hmem =>
      rw [hring.mem_keys_drop]
      constructor
      · rintro ⟨hne, hheld⟩
        refine Or.inr ⟨hheld, ?_⟩
        intro hcall
        rw [removeKey.injEq] at hcall
        exact hne (FixedBytes.ext hcall.symm)
      · rintro (hkey | ⟨hheld, hcall⟩)
        · cases hkey
        · refine ⟨?_, hheld⟩
          rintro rfl
          exact hcall rfl

theorem Change.findsKeys (hchange : Change ring call after) (hdistinct : ring.Distinct)
    (hring : ring.FindsKeys)
    (hapart : ∀ key other, call.Brings key ∨ key ∈ ring.keys →
      call.Brings other ∨ other ∈ ring.keys → key.hash = other.hash → key = other) :
    after.FindsKeys := by
  cases hchange with
  | none hbrings hremoves => exact hring
  | added secret hbrings =>
      refine hring.add ?_
      intro key hmem
      exact hapart key _ (Or.inr hmem) (Or.inl ((hbrings _).mpr rfl))
  | dropped hmem =>
      refine hring.drop hdistinct ?_
      intro other hother
      exact hapart other _ (Or.inr hother) (Or.inr hmem)

theorem leave_importKey_of_error {secret : Bytes} {fault : Fault}
    (himport : ring.importKey secret = .error fault) : (importKey secret).leave ring = ring := by
  rw [leave, himport]

theorem reachable_leave (call : RingCall) (hring : ring.Reachable) :
    (call.leave ring).Reachable := by
  cases call with
  | importKey b =>
      rw [leave]
      cases himport : ring.importKey b with
      | error fault => exact hring
      | ok result => exact .importKey hring himport
  | createKey drawn => exact hring.add drawn
  | removeKey b =>
      rw [leave]
      cases hremove : ring.remove? b with
      | none => exact hring
      | some next => exact .remove hring hremove

/-! ## What a history leaves -/

theorem reachable_leaveAll (calls : List RingCall) : (leaveAll calls).Reachable := by
  induction calls using List.reverseRecOn with
  | nil => exact .empty
  | append_singleton calls call ih =>
      rw [leaveAll_concat]
      exact call.reachable_leave ih

theorem distinct_leaveAll (calls : List RingCall) : (leaveAll calls).Distinct := by
  induction calls using List.reverseRecOn with
  | nil => exact ⟨List.nodup_nil, List.nodup_nil⟩
  | append_singleton calls call ih =>
      rw [leaveAll_concat]
      exact (call.change_leave _).distinct ih

theorem mem_keys_leaveAll_iff : key ∈ (leaveAll calls).keys ↔ Held calls key := by
  induction calls using List.reverseRecOn with
  | nil => exact iff_of_false List.not_mem_nil (not_held_nil key)
  | append_singleton calls call ih =>
      rw [leaveAll_concat, (call.change_leave _).mem_keys_iff (distinct_leaveAll calls), ih,
        held_concat_iff]

theorem findsKeys_leaveAll (hapart : HashesApart calls) : (leaveAll calls).FindsKeys := by
  induction calls using List.reverseRecOn with
  | nil =>
      intro hash key
      exact iff_of_false (Option.some_ne_none key).symm fun hheld => List.not_mem_nil hheld.1
  | append_singleton calls call ih =>
      -- A key that is held or comes in now was brought in by one of the calls.
      have hbrought : ∀ key, call.Brings key ∨ key ∈ (leaveAll calls).keys →
          Brought (calls ++ [call]) key := by
        rintro key (hbrings | hmem)
        · exact ⟨call, List.mem_append_right _ List.mem_cons_self, hbrings⟩
        · exact (mem_keys_leaveAll_iff.mp hmem).brought.concat
      rw [leaveAll_concat]
      refine (call.change_leave _).findsKeys (distinct_leaveAll calls) (ih hapart.of_concat) ?_
      intro key other hkey hother
      exact hapart key other (hbrought key hkey) (hbrought other hother)

end RingCall

/-! ## Signing -/

namespace KeyRing

variable {ring : KeyRing} {key message : Bytes}

theorem sign_eq_keyNotFound_iff :
    (∃ missing, ring.sign key message = .error (.keyNotFound missing)) ↔
      ∀ held ∈ ring.keys, held.bytes ≠ key := by
  rw [← secret?_eq_none_iff, sign]
  cases hsecret : ring.secret? key with
  | none => exact iff_of_true ⟨_, rfl⟩ rfl
  | some secret =>
      refine iff_of_false ?_ (Option.some_ne_none secret)
      rintro ⟨missing, hsign⟩
      rcases bind_eq_error_iff.mp hsign with hlength | ⟨hash, -, hsign⟩
      · obtain ⟨flaw, hflaw⟩ := Datum.exists_flaw_of_sized hlength
        cases hflaw
      rcases bind_eq_error_iff.mp hsign with hsigned | ⟨signature, hsigned, hwritten⟩
      · rcases SecretKey.sign_eq_error_cases hsigned with ⟨flaw, hflaw⟩ | hinfinity
        · cases hflaw
        · cases hinfinity
      · -- What was signed can always be written.
        obtain ⟨hfits, -⟩ := SecretKey.recover_of_sign hsigned
        obtain ⟨bytes, hbytes, -⟩ := hfits.exists_toBytes
        rw [hbytes] at hwritten
        cases hwritten

theorem exists_hash_of_sign {signed : FixedBytes 65} (hsign : ring.sign key message = .ok signed) :
    ∃ held ∈ ring.keys, held.bytes = key ∧ ∃ hash : Digest, message = hash.bytes := by
  rw [sign] at hsign
  cases hsecret : ring.secret? key with
  | none =>
      rw [hsecret] at hsign
      cases hsign
  | some secret =>
      rw [hsecret] at hsign
      obtain ⟨held, hmem, hkey, -⟩ := exists_key_of_secret? hsecret
      obtain ⟨hash, hsized, -⟩ := bind_eq_ok_iff.mp hsign
      exact ⟨held, hmem, hkey.symm, hash, Datum.sized_eq_ok_iff.mp hsized⟩

theorem Ordered.recover_of_sign (hring : ring.Ordered) {signed : FixedBytes 65}
    (hsign : ring.sign key message = .ok signed) :
    ∃ held ∈ ring.keys, held.bytes = key ∧ ∃ signature,
      Signature.ofBytes signed.bytes = .ok signature ∧ signature.recover message = .ok held := by
  obtain ⟨held, hmem, rfl, hash, rfl⟩ := exists_hash_of_sign hsign
  have hanswer : ring.service.sign held.bytes hash.bytes = .ok signed.bytes := by
    simp only [service, hsign, map_ok]
  obtain ⟨bytes, hbytes, hrecover⟩ := hring.honest.sign held hash _ hanswer
  obtain rfl := FixedBytes.ext hbytes
  refine ⟨held, hmem, rfl, Signature.ofFixedBytes signed, ?_, hrecover⟩
  rw [Signature.ofBytes, Datum.sized_bytes, ok_bind, pure_eq_ok]

end KeyRing

namespace RingCall

/-- After any history a key ring lists, without repetition, the keys that came in and were not
removed since.  Signing misses the key exactly where none of these is meant, and what is signed
recovers to the key.  If no two keys that came in share a hash, a hash leads to the listed key
that has it. -/
theorem indexes_match_history (calls : List RingCall) :
    let ring := leaveAll calls
    (HashesApart calls → ∀ hash key,
      ring.publicKey? hash = some key ↔ key ∈ ring.keys ∧ key.hash.bytes = hash) ∧
    ring.keys.Nodup ∧
    (∀ key, key ∈ ring.keys ↔ Held calls key) ∧
    (∀ key message, (∃ missing, ring.sign key message = .error (.keyNotFound missing)) ↔
      ∀ held ∈ ring.keys, held.bytes ≠ key) ∧
    (∀ key message signed, ring.sign key message = .ok signed →
      signed.bytes.length = 65 ∧ ∃ held ∈ ring.keys, held.bytes = key ∧ ∃ signature,
        Signature.ofBytes signed.bytes = .ok signature ∧ signature.recover message = .ok held) ∧
    ∀ secret fault, ring.importKey secret = .error fault →
      leaveAll (calls ++ [.importKey secret]) = ring := by
  intro ring
  refine ⟨?_, (distinct_leaveAll calls).keys, fun key => mem_keys_leaveAll_iff, ?_, ?_, ?_⟩
  · intro hapart hash key
    exact (findsKeys_leaveAll hapart).publicKey?_eq_some_iff
  · intro key message
    exact KeyRing.sign_eq_keyNotFound_iff
  · intro key message signed hsign
    exact ⟨signed.length_bytes, (reachable_leaveAll calls).ordered.recover_of_sign hsign⟩
  · intro secret fault himport
    rw [leaveAll_concat]
    exact leave_importKey_of_error himport

/-- The private key two. -/
def secondSecret : SecretKey :=
  ⟨2, by decide, by decide⟩

/-- A history in which one key takes the place of another one. -/
def succession : List RingCall :=
  [.importKey (BigEndian.fixed 32 1), .importKey [], .createKey secondSecret,
    .removeKey SecretKey.one.publicKey.bytes]

theorem indexes_match_history_succession :
    let ring := leaveAll succession
    let removed := SecretKey.one.publicKey
    let kept := secondSecret.publicKey
    HashesApart succession ∧ ring.publicKey? kept.hash.bytes = some kept ∧
      ring.publicKey? removed.hash.bytes ≠ some removed ∧ Held succession kept ∧
      (∃ missing, ring.sign removed.bytes [] = .error (.keyNotFound missing)) ∧
      leaveAll (succession ++ [.importKey []]) = ring := by
  intro ring removed kept
  obtain ⟨hfinds, -, hheld, hmissing, -, hrejected⟩ := indexes_match_history succession
  have hempty : ring.importKey [] =
      .error (.malformed (.wrongLength "private key" 32 0)) := rfl
  have hdiffer : removed.hash ≠ kept.hash := by decide +kernel
  have hkeys : ring.keys = [kept] := by decide +kernel
  have hbrought : ∀ key, Brought succession key → key = removed ∨ key = kept := by
    rintro key ⟨call, hmem, hbrings⟩
    simp only [succession, List.mem_cons, List.not_mem_nil, or_false] at hmem
    rcases hmem with rfl | rfl | rfl | rfl
    · obtain ⟨hread⟩ := hbrings
      cases hread.symm.trans (SecretKey.ofBytes_fixed .one)
      exact Or.inl rfl
    · obtain ⟨hread⟩ := hbrings
      cases hread
    · cases hbrings
      exact Or.inr rfl
    · cases hbrings
  have hapart : HashesApart succession := by
    intro key other hkey hother hsame
    rcases hbrought key hkey with rfl | rfl
    · rcases hbrought other hother with rfl | rfl
      · rfl
      · exact absurd hsame hdiffer
    · rcases hbrought other hother with rfl | rfl
      · exact absurd hsame.symm hdiffer
      · rfl
  have hkept : kept ∈ ring.keys := by
    rw [hkeys]
    exact List.mem_singleton_self kept
  have hremoved : removed ∉ ring.keys := by
    rw [hkeys, List.mem_singleton]
    intro hsame
    exact hdiffer (congrArg PublicKey.hash hsame)
  refine ⟨hapart, (hfinds hapart _ _).mpr ⟨hkept, rfl⟩, ?_, (hheld kept).mp hkept, ?_,
    hrejected [] _ hempty⟩
  · intro hfound
    exact hremoved ((hfinds hapart _ _).mp hfound).1
  · refine (hmissing removed.bytes []).mpr ?_
    intro held hmem hsame
    rw [FixedBytes.ext hsame] at hmem
    exact hremoved hmem

end RingCall

end ShardLedger
