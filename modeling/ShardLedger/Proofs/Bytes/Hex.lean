import ShardLedger.Bytes.Hex
import ShardLedger.Proofs.Bytes.BigEndian

/-!
# Hexadecimal text reads back

Every byte is written as two digits, and reading the digits gives the bytes back.  The
digits of a number with zeros in front are those of its bytes in the same width.
-/

namespace ShardLedger

namespace BigEndian

theorem toNat_fixed (width n : Nat) : toNat (fixed width n) = n % 256 ^ width := by
  induction width generalizing n with
  | zero => simp [fixed, Nat.mod_one]
  | succ width ih =>
      rw [fixed, toNat_concat, ih, toNat_toUInt8, Nat.pow_succ', Nat.mod_mul]
      omega

theorem toNat_fixed_of_lt {width n : Nat} (hn : n < 256 ^ width) : toNat (fixed width n) = n := by
  rw [toNat_fixed, Nat.mod_eq_of_lt hn]

/-- A byte string is the form in its own width of the number it stands for. -/
theorem fixed_toNat {width : Nat} {b : Bytes} (hlength : b.length = width) :
    fixed width (toNat b) = b := by
  subst hlength
  induction b using List.reverseRecOn with
  | nil => rfl
  | append_singleton b x ih =>
      obtain ⟨hdiv, hlast⟩ := split_last (toNat b) x
      rw [List.length_append, List.length_singleton, fixed, toNat_concat, hdiv, ih, hlast]

end BigEndian

namespace Hex

theorem value?_digit : ∀ n < 16, value? (digit n) = some n := by decide

theorem isBlank_digit : ∀ n < 16, isBlank (digit n) = false := by decide

theorem digitChar_eq_digit : ∀ n < 16, Nat.digitChar n = digit n := by decide

theorem decode_pair_append (b : UInt8) (rest : List Char) :
    decode (pair b ++ rest) = (decode rest).map (b :: ·) := by
  have hlt := b.toNat_lt
  have hhigh : b.toNat / 16 < 16 := by omega
  have hlow : b.toNat % 16 < 16 := by omega
  have hbyte : (16 * (b.toNat / 16) + b.toNat % 16).toUInt8 = b := by
    rw [Nat.div_add_mod]
    exact UInt8.ofNat_toNat
  rw [pair, List.cons_append, List.cons_append, List.nil_append, decode, isBlank_digit _ hhigh,
    value?_digit _ hhigh, value?_digit _ hlow]
  simp only [Bool.false_eq_true, if_false, Option.bind_eq_bind, Option.bind_some, hbyte]
  cases decode rest with
  | none => rfl
  | some bytes => rfl

theorem decode_encode (b : Bytes) : decode (encode b) = some b := by
  induction b with
  | nil => rfl
  | cons x b ih =>
      rw [encode, List.flatMap_cons, decode_pair_append]
      rw [encode] at ih
      rw [ih]
      rfl

theorem encode_append (a b : Bytes) : encode (a ++ b) = encode a ++ encode b :=
  List.flatMap_append

theorem length_encode (b : Bytes) : (encode b).length = 2 * b.length := by
  induction b with
  | nil => rfl
  | cons x b ih =>
      have hpair : (pair x).length = 2 := rfl
      rw [encode, List.flatMap_cons, List.length_append, List.length_cons, hpair]
      rw [encode] at ih
      omega

theorem length_marked (cs : List Char) : ("0x" ++ String.ofList cs).length = 2 + cs.length := by
  rw [String.length_append, String.length_ofList (l := cs)]
  rfl

theorem dropMarker_marked (cs : List Char) : dropMarker ("0x" ++ String.ofList cs).toList = cs := by
  have hmarked : ("0x" ++ String.ofList cs).toList = '0' :: 'x' :: cs := by
    simp [String.toList_append]
  rw [hmarked, dropMarker]

theorem dropMarker_shown (b : Bytes) : dropMarker (shown b).toList = encode b :=
  dropMarker_marked (encode b)

/-! ## Numbers in a width -/

/-- The digits of a number with zeros in front, up to a count. -/
def padded (count n : Nat) : List Char :=
  List.replicate (count - (natural n).length) '0' ++ natural n

theorem padded_of_lt {count n : Nat} (hn : n < 16) :
    padded (count + 1) n = List.replicate count '0' ++ [digit n] := by
  have hnatural : natural n = [digit n] := by
    rw [natural, Nat.toDigits_of_lt_base hn, digitChar_eq_digit n hn]
  rw [padded, hnatural, List.length_singleton, Nat.add_sub_cancel]

/-- The last digit stands for the remainder. -/
theorem padded_succ {count : Nat} (hcount : 0 < count) (n : Nat) :
    padded (count + 1) n = padded count (n / 16) ++ [digit (n % 16)] := by
  obtain ⟨count, rfl⟩ := Nat.exists_eq_add_one.mpr hcount
  by_cases hn : n < 16
  · have hzeros : List.replicate (count + 1) '0' = List.replicate count '0' ++ [digit 0] :=
      List.replicate_succ'
    rw [padded_of_lt hn, Nat.div_eq_of_lt hn, Nat.mod_eq_of_lt hn, padded_of_lt (by decide), hzeros]
  · have hdigits : natural n = natural (n / 16) ++ [digit (n % 16)] := by
      have hmod : n % 16 < 16 := Nat.mod_lt n (by decide)
      rw [natural, Nat.toDigits_of_base_le (by decide) (by omega), digitChar_eq_digit _ hmod,
        natural]
    rw [padded, hdigits, List.length_append, List.length_singleton, Nat.add_sub_add_right, padded,
      List.append_assoc]

theorem padded_eq_encode (width n : Nat) (hn : n < 256 ^ (width + 1)) :
    padded (2 * (width + 1)) n = encode (BigEndian.fixed (width + 1) n) := by
  have hpair : ∀ n : Nat, [digit (n / 16 % 16), digit (n % 16)] = pair n.toUInt8 := by
    intro n
    have hhigh : n % 256 / 16 = n / 16 % 16 := by omega
    have hlow : n % 256 % 16 = n % 16 := by omega
    rw [pair, BigEndian.toNat_toUInt8, hhigh, hlow]
  induction width generalizing n with
  | zero =>
      have hsmall : n / 16 < 16 := by omega
      rw [padded_succ (by decide), padded_of_lt hsmall, BigEndian.fixed, BigEndian.fixed]
      have hdigits := hpair n
      rw [Nat.mod_eq_of_lt hsmall] at hdigits
      simp [encode, ← hdigits]
  | succ width ih =>
      have hdiv : n / 256 < 256 ^ (width + 1) := by
        rw [Nat.pow_succ] at hn
        omega
      have htwice : 2 * (width + 1 + 1) = 2 * (width + 1) + 1 + 1 := rfl
      have hlast : encode [n.toUInt8] = [digit (n / 16 % 16)] ++ [digit (n % 16)] := by
        rw [encode, List.flatMap_singleton, ← hpair n]
        rfl
      rw [htwice, padded_succ (by omega), padded_succ (by omega), Nat.div_div_eq_div_mul,
        ih (n / 256) hdiv, BigEndian.fixed.eq_2 n (width + 1), encode_append, hlast,
        List.append_assoc]

end Hex

end ShardLedger
