import Mathlib.Algebra.Group.Nat.Defs
import Mathlib.Data.List.Induction
import ShardLedger.Bytes.BigEndian

/-!
# Numbers and their shortest byte strings

The shortest form of a number reads back as the number, has no zero byte in front,
and is the only such byte string.  Its length is bounded by the size of the number.
-/

namespace ShardLedger.BigEndian

theorem toNat_toUInt8 (n : Nat) : n.toUInt8.toNat = n % 256 := rfl

/-- The last byte of a number, and the number in front of it. -/
theorem split_last (n : Nat) (x : UInt8) :
    (n * 256 + x.toNat) / 256 = n ∧ (n * 256 + x.toNat).toUInt8 = x := by
  have hx := x.toNat_lt
  refine ⟨by omega, ?_⟩
  apply UInt8.toNat_inj.mp
  rw [toNat_toUInt8]
  omega

theorem minimal_zero : minimal 0 = [] := by
  rw [minimal, digits, if_pos rfl, List.reverse_nil]

theorem minimal_of_pos {n : Nat} (hn : 0 < n) :
    minimal n = minimal (n / 256) ++ [n.toUInt8] := by
  rw [minimal, digits, if_neg (Nat.ne_of_gt hn), List.reverse_cons, minimal]

theorem toNat_append (a b : Bytes) : toNat (a ++ b) = toNat a * 256 ^ b.length + toNat b := by
  induction b using List.reverseRecOn with
  | nil => simp
  | append_singleton b x ih =>
      rw [← List.append_assoc, toNat_concat, toNat_concat, ih, List.length_append,
        List.length_singleton, Nat.pow_succ]
      grind

theorem toNat_cons (x : UInt8) (b : Bytes) :
    toNat (x :: b) = x.toNat * 256 ^ b.length + toNat b := by
  rw [← List.singleton_append, toNat_append]
  simp [toNat]

theorem toNat_lt (b : Bytes) : toNat b < 256 ^ b.length := by
  induction b with
  | nil => decide
  | cons x b ih =>
      have hx := x.toNat_lt
      rw [toNat_cons, List.length_cons, Nat.pow_succ]
      have hle : x.toNat * 256 ^ b.length ≤ 255 * 256 ^ b.length :=
        Nat.mul_le_mul_right _ (by omega)
      omega

/-- The shortest form stands for its number. -/
@[simp]
theorem toNat_minimal (n : Nat) : toNat (minimal n) = n := by
  -- The induction drops the last byte.
  induction n using Nat.strongRecOn with
  | ind n ih =>
      rcases Nat.eq_zero_or_pos n with rfl | hn
      · rw [minimal_zero, toNat_nil]
      · have hdiv := ih (n / 256) (Nat.div_lt_self hn (by decide))
        rw [minimal_of_pos hn, toNat_concat, hdiv, toNat_toUInt8]
        omega

theorem minimal_injective {m n : Nat} (h : minimal m = minimal n) : m = n := by
  rw [← toNat_minimal m, h, toNat_minimal]

theorem minimal_ne_nil {n : Nat} (hn : 0 < n) : minimal n ≠ [] := by
  rw [minimal_of_pos hn]
  exact List.append_ne_nil_of_right_ne_nil _ (List.cons_ne_nil _ _)

/-- The shortest form has no zero byte in front. -/
theorem head?_minimal_ne_zero (n : Nat) : (minimal n).head? ≠ some 0 := by
  induction n using Nat.strongRecOn with
  | ind n ih =>
      rcases Nat.eq_zero_or_pos n with rfl | hn
      · rw [minimal_zero]
        decide
      · rw [minimal_of_pos hn]
        rcases Nat.eq_zero_or_pos (n / 256) with hsmall | hlarge
        · rw [hsmall, minimal_zero, List.nil_append, List.head?_cons]
          intro hzero
          have hbyte := congrArg UInt8.toNat (Option.some.inj hzero)
          rw [toNat_toUInt8] at hbyte
          change n % 256 = 0 at hbyte
          omega
        · obtain ⟨x, b, hb⟩ := List.exists_cons_of_ne_nil (minimal_ne_nil hlarge)
          have hhead := ih (n / 256) (Nat.div_lt_self hn (by decide))
          rw [hb] at hhead ⊢
          exact hhead

/-- A byte string without a zero byte in front is the shortest form of its number. -/
theorem minimal_toNat {b : Bytes} (hhead : b.head? ≠ some 0) : minimal (toNat b) = b := by
  induction b using List.reverseRecOn with
  | nil => exact minimal_zero
  | append_singleton b x ih =>
      have hrest : b.head? ≠ some 0 := by
        cases b with
        | nil => simp
        | cons y b => exact hhead
      have hpos : 0 < toNat b * 256 + x.toNat := by
        rw [Nat.pos_iff_ne_zero]
        intro hzero
        have hb : toNat b = 0 := by omega
        have hnil := ih hrest
        rw [hb, minimal_zero] at hnil
        have hx0 : x = 0 := UInt8.toNat_inj.mp (by change x.toNat = 0; omega)
        rw [← hnil, hx0] at hhead
        exact hhead rfl
      obtain ⟨hdiv, hlast⟩ := split_last (toNat b) x
      rw [toNat_concat, minimal_of_pos hpos, hdiv, ih hrest, hlast]

theorem length_minimal_le {n width : Nat} (hn : n < 256 ^ width) : (minimal n).length ≤ width := by
  induction width generalizing n with
  | zero =>
      obtain rfl : n = 0 := by omega
      rw [minimal_zero]
      exact Nat.zero_le _
  | succ width ih =>
      rcases Nat.eq_zero_or_pos n with rfl | hpos
      · rw [minimal_zero]
        exact Nat.zero_le _
      · have hdiv : n / 256 < 256 ^ width := by
          rw [Nat.pow_succ] at hn
          omega
        rw [minimal_of_pos hpos, List.length_append, List.length_singleton]
        exact Nat.succ_le_succ (ih hdiv)

end ShardLedger.BigEndian
