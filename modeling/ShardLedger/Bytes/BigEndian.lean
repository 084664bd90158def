import ShardLedger.Bytes.Basic

/-!
# Natural numbers as bytes

Two written forms of a natural number, both with the most significant byte
first: the shortest one, where zero is the empty byte string, and one of a given
width.  `toNat` reads either of them back.
-/

namespace ShardLedger.BigEndian

/-- The base-256 digits of `n`, least significant first, without a zero at the far end. -/
def digits (n : Nat) : Bytes :=
  if n = 0 then [] else n.toUInt8 :: digits (n / 256)

/-- The shortest byte string that stands for `n`. -/
def minimal (n : Nat) : Bytes :=
  (digits n).reverse

/-- The last `width` base-256 digits of `n`. -/
def fixed : Nat → Nat → Bytes
  | 0, _ => []
  | width + 1, n => fixed width (n / 256) ++ [n.toUInt8]

/-- The number that a byte string stands for. -/
def toNat (b : Bytes) : Nat :=
  b.foldl (fun acc x => acc * 256 + x.toNat) 0

@[simp]
theorem length_fixed (width n : Nat) : (fixed width n).length = width := by
  induction width generalizing n with
  | zero => rfl
  | succ width ih => simp [fixed, ih]

/-- `n` in `width` bytes, as a byte string of that length. -/
def fixedBytes (width n : Nat) : FixedBytes width :=
  ⟨fixed width n, length_fixed width n⟩

@[simp]
theorem toNat_nil : toNat [] = 0 := rfl

theorem toNat_concat (b : Bytes) (x : UInt8) :
    toNat (b ++ [x]) = toNat b * 256 + x.toNat := by
  simp [toNat]

end ShardLedger.BigEndian
