import Mathlib.Algebra.Order.Floor.Div
import Mathlib.Data.Nat.Size
import Mathlib.GroupTheory.GroupAction.Ring
import ShardLedger.Proofs.Bytes.BigEndian
import ShardLedger.Rlp.Item

/-!
# Numbers and their byte forms

Writing a number as bytes and reading bytes as a number are inverse to each other, between
all numbers from zero on and the byte strings without a zero byte in front.  The byte form of
a number has as many bytes as its bits fill.
-/

namespace ShardLedger

namespace BigEndian

theorem length_minimal_le_iff {n width : Nat} : (minimal n).length ≤ width ↔ n < 256 ^ width := by
  constructor
  · intro hlength
    calc
      n = toNat (minimal n) := (toNat_minimal n).symm
      _ < 256 ^ (minimal n).length := toNat_lt _
      _ ≤ 256 ^ width := Nat.pow_le_pow_right (by decide) hlength
  · exact length_minimal_le

/-- The shortest form has a byte for every eight bits, and one for what is left of them. -/
theorem length_minimal (n : Nat) : (minimal n).length = n.size ⌈/⌉ 8 := by
  -- Both sides are the least width that the number fits into.
  apply eq_of_forall_ge_iff
  intro width
  calc
    (minimal n).length ≤ width ↔ n < 256 ^ width := length_minimal_le_iff
    _ ↔ n < 2 ^ (8 * width) := by rw [Nat.pow_mul]
    _ ↔ n.size ≤ 8 * width := Nat.size_le.symm
    _ ↔ n.size ⌈/⌉ 8 ≤ width := (ceilDiv_le_iff_le_mul (by decide)).symm

end BigEndian

namespace Rlp

theorem integerBytes_natCast (n : Nat) : integerBytes (.int n) = .ok (BigEndian.minimal n) := by
  rw [integerBytes, if_neg (Int.not_lt.mpr (Int.natCast_nonneg n)), Int.toNat_natCast]

theorem bytesInteger_eq_error_iff {bytes : Bytes} :
    bytesInteger bytes = .error .paddedInteger ↔ bytes.head? = some 0 := by
  unfold bytesInteger
  split
  next rest => exact iff_of_true rfl rfl
  next hhead =>
    constructor
    · intro herror
      cases herror
    · intro hzero
      obtain ⟨rest, rfl⟩ := List.head?_eq_some_iff.mp hzero
      exact absurd rfl (hhead rest)

theorem bytesInteger_eq_ok_iff {bytes : Bytes} {n : Nat} :
    bytesInteger bytes = .ok n ↔ bytes.head? ≠ some 0 ∧ BigEndian.toNat bytes = n := by
  unfold bytesInteger
  split
  next rest => simp
  next hhead =>
    have hne : bytes.head? ≠ some 0 := by
      intro hzero
      obtain ⟨rest, rfl⟩ := List.head?_eq_some_iff.mp hzero
      exact hhead rest rfl
    rw [Except.ok.injEq]
    exact (and_iff_right hne).symm

/-- A number is written as the bytes that are read as it, and as no others. -/
theorem integerBytes_eq_ok_iff {n : Nat} {bytes : Bytes} :
    integerBytes (.int n) = .ok bytes ↔ bytesInteger bytes = .ok n := by
  rw [integerBytes_natCast, bytesInteger_eq_ok_iff, Except.ok.injEq]
  constructor
  · rintro rfl
    exact ⟨BigEndian.head?_minimal_ne_zero n, BigEndian.toNat_minimal n⟩
  · rintro ⟨hhead, rfl⟩
    exact BigEndian.minimal_toNat hhead

/-- Every number from zero on has one byte form, without a zero byte in front and as wide as its
bits ask for, and is read back from it; every byte string is the form of the number that is read
from it, unless a zero byte in front makes it none. -/
theorem integer_bytes_inverse :
    (∀ n : Nat, ∃ bytes : Bytes, integerBytes (.int n) = .ok bytes ∧ bytesInteger bytes = .ok n ∧
      bytes.head? ≠ some 0 ∧ bytes.length = n.size ⌈/⌉ 8) ∧
    (∀ bytes : Bytes, bytesInteger bytes = .error .paddedInteger ↔ bytes.head? = some 0) ∧
    (∀ bytes : Bytes, bytes.head? ≠ some 0 →
      ∃ n : Nat, bytesInteger bytes = .ok n ∧ integerBytes (.int n) = .ok bytes) := by
  refine ⟨?_, fun bytes => bytesInteger_eq_error_iff, ?_⟩
  · intro n
    exact ⟨BigEndian.minimal n, integerBytes_natCast n,
      integerBytes_eq_ok_iff.mp (integerBytes_natCast n), BigEndian.head?_minimal_ne_zero n,
      BigEndian.length_minimal n⟩
  · intro bytes hhead
    have hread : bytesInteger bytes = .ok (BigEndian.toNat bytes) :=
      bytesInteger_eq_ok_iff.mpr ⟨hhead, rfl⟩
    exact ⟨_, hread, integerBytes_eq_ok_iff.mpr hread⟩

/-- The first number of three bytes, of which the last two are zero. -/
theorem integer_bytes_inverse_threeBytes :
    integerBytes (.int 65536) = .ok [1, 0, 0] ∧ bytesInteger [1, 0, 0] = .ok 65536 := by
  obtain ⟨n, hread, hwrite⟩ := integer_bytes_inverse.2.2 [1, 0, 0] (by decide)
  obtain rfl : 65536 = n := Except.ok.inj hread
  exact ⟨hwrite, hread⟩

end Rlp

end ShardLedger
