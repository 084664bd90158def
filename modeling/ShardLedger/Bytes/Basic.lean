/-!
# Byte strings

Byte strings are lists of bytes.  Hashes, keys and account ids have a length
that never varies, so they carry it in their type: `FixedBytes n` is a byte
string together with the proof that it holds exactly `n` bytes.
-/

namespace ShardLedger

/-- A byte string. -/
abbrev Bytes := List UInt8

/-- A byte string of exactly `n` bytes. -/
structure FixedBytes (n : Nat) where
  /-- The bytes themselves. -/
  bytes : Bytes
  /-- There are exactly `n` of them. -/
  length_bytes : bytes.length = n
deriving DecidableEq

attribute [simp] FixedBytes.length_bytes

/-- A 32-byte content hash. -/
abbrev Digest := FixedBytes 32

/-- A 20-byte account id. -/
abbrev AccountId := FixedBytes 20

/-- A public key: the 32-byte coordinates of a curve point, one after the other. -/
abbrev PublicKey := FixedBytes 64

namespace FixedBytes

@[ext]
theorem ext {n : Nat} {x y : FixedBytes n} (h : x.bytes = y.bytes) : x = y := by
  cases x
  cases y
  cases h
  rfl

/-- A byte string that has the right length. -/
def ofBytes? (n : Nat) (b : Bytes) : Option (FixedBytes n) :=
  if h : b.length = n then some ⟨b, h⟩ else none

@[simp]
theorem ofBytes?_bytes {n : Nat} (x : FixedBytes n) : ofBytes? n x.bytes = some x := by
  simp [ofBytes?]

theorem ofBytes?_eq_some_iff {n : Nat} {b : Bytes} {x : FixedBytes n} :
    ofBytes? n b = some x ↔ b = x.bytes := by
  constructor
  · intro h
    unfold ofBytes? at h
    split at h
    · cases h
      rfl
    · contradiction
  · rintro rfl
    exact ofBytes?_bytes x

theorem ofBytes?_eq_none_iff {n : Nat} {b : Bytes} :
    ofBytes? n b = none ↔ b.length ≠ n := by
  simp [ofBytes?]

/-- `n` zero bytes. -/
def zero (n : Nat) : FixedBytes n :=
  ⟨List.replicate n 0, List.length_replicate⟩

end FixedBytes

namespace Bytes

/-- Whether any byte differs from zero. -/
def anyNonzero (b : Bytes) : Bool :=
  b.any (· ≠ 0)

/-- The place that a signed position names: a negative one counts from the end. -/
def place (b : Bytes) (i : Int) : Nat :=
  if i < 0 then (b.length + i).toNat else min i.toNat b.length

/-- The bytes from one signed position up to another; nothing when they are not in order. -/
def between (b : Bytes) (start stop : Int) : Bytes :=
  (b.take (place b stop)).drop (place b start)

end Bytes

end ShardLedger
