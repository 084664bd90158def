import Mathlib.Algebra.Group.Nat.Defs
import ShardLedger.Text.Numeral

/-!
# Decimal numerals read back

A number that is short enough to be written is read back from its decimal numeral.
-/

namespace ShardLedger.Text

theorem exists_digitChar_of_mem {n : Nat} {c : Char} (hmem : c ∈ Nat.toDigits 10 n) :
    ∃ d < 10, c = Nat.digitChar d := by
  induction n using Nat.strongRecOn with
  | ind n ih =>
      by_cases hn : n < 10
      · rw [Nat.toDigits_of_lt_base hn, List.mem_singleton] at hmem
        exact ⟨n, hn, hmem⟩
      · rw [Nat.toDigits_of_base_le (by decide) (by omega), List.mem_append,
          List.mem_singleton] at hmem
        rcases hmem with hmem | hlast
        · exact ih (n / 10) (by omega) hmem
        · exact ⟨n % 10, Nat.mod_lt n (by decide), hlast⟩

theorem digitValue?_digitChar : ∀ d < 10, digitValue? (Nat.digitChar d) = some d := by decide

theorem digitChar_sub : ∀ d < 10, (Nat.digitChar d).toNat - '0'.toNat = d := by decide

theorem isBlank_digitChar : ∀ d < 10, isBlank (Nat.digitChar d) = false := by decide

theorem digitChar_ne : ∀ d < 10,
    Nat.digitChar d ≠ '_' ∧ Nat.digitChar d ≠ '-' ∧ Nat.digitChar d ≠ '+' ∧
      Nat.digitChar d ≠ 'x' ∧ Nat.digitChar d ≠ 'X' := by
  decide

namespace Numeral

/-- Every character is a decimal digit. -/
def AllDigits (cs : List Char) : Prop :=
  ∀ c ∈ cs, ∃ d < 10, c = Nat.digitChar d

theorem continueDigits_eq {cs : List Char} (hdigits : AllDigits cs) (value count : Nat) :
    continueDigits 10 digitValue? value count cs =
      some (Nat.ofDigitChars 10 cs value, count + cs.length) := by
  induction cs generalizing value count with
  | nil => rw [continueDigits]; rfl
  | cons c rest ih =>
      obtain ⟨hc, hrest⟩ := List.forall_mem_cons.mp hdigits
      obtain ⟨d, hd, rfl⟩ := hc
      obtain ⟨hunderscore, -⟩ := digitChar_ne d hd
      rw [continueDigits.eq_3 _ _ _ _ _ _ (fun _ _ hc _ => hunderscore hc),
        digitValue?_digitChar d hd, Option.bind_eq_bind, Option.bind_some, ih hrest,
        Nat.ofDigitChars_cons, digitChar_sub d hd, List.length_cons, Nat.mul_comm, Nat.add_assoc,
        Nat.add_comm 1]

theorem allDigits_toDigits (n : Nat) : AllDigits (Nat.toDigits 10 n) :=
  fun _ hmem => exists_digitChar_of_mem hmem

theorem digits?_toDigits (n : Nat) :
    digits? 10 digitValue? (Nat.toDigits 10 n) = some (n, (Nat.toDigits 10 n).length) := by
  have hdigits := allDigits_toDigits n
  have hvalue : Nat.ofDigitChars 10 (Nat.toDigits 10 n) 0 = n :=
    Nat.ofDigitChars_toDigits (by decide) (by decide)
  obtain ⟨c, rest, hcs⟩ := List.exists_cons_of_ne_nil (Nat.toDigits_ne_nil (n := n) (b := 10))
  rw [hcs] at hdigits hvalue ⊢
  obtain ⟨hc, hrest⟩ := List.forall_mem_cons.mp hdigits
  obtain ⟨d, hd, rfl⟩ := hc
  rw [Nat.ofDigitChars_cons, digitChar_sub d hd, Nat.mul_zero, Nat.zero_add] at hvalue
  rw [digits?, digitValue?_digitChar d hd, Option.bind_eq_bind, Option.bind_some,
    continueDigits_eq hrest, hvalue, List.length_cons, Nat.add_comm]

theorem unsigned?_toDigits {n : Nat} (hn : n < 10 ^ digitLimit) :
    unsigned? (Nat.toDigits 10 n) = some n := by
  have hlength : (Nat.toDigits 10 n).length ≤ digitLimit :=
    (Nat.length_toDigits_le_iff (by decide) (by decide)).mpr hn
  rw [unsigned?, digits?_toDigits, Option.bind_eq_bind, Option.bind_some]
  simp only [if_pos hlength]

theorem dropWhile_isBlank {cs : List Char} (hdigits : AllDigits cs) :
    cs.dropWhile isBlank = cs := by
  cases cs with
  | nil => rfl
  | cons c rest =>
      obtain ⟨d, hd, rfl⟩ := hdigits c List.mem_cons_self
      exact List.dropWhile_cons_of_neg (by rw [isBlank_digitChar d hd]; decide)

theorem trim_eq_self {cs : List Char} (hdigits : AllDigits cs) : trim cs = cs := by
  have hreverse : AllDigits cs.reverse := fun c hmem => hdigits c (List.mem_reverse.mp hmem)
  rw [trim, dropWhile_isBlank hdigits, trimEnd, dropWhile_isBlank hreverse, List.reverse_reverse]

theorem decimal?_toDigits {n : Nat} (hn : n < 10 ^ digitLimit) :
    decimal? (Nat.toDigits 10 n) = some (n : Int) := by
  have hunsigned := unsigned?_toDigits hn
  have hdigits := allDigits_toDigits n
  rw [decimal?, trim_eq_self hdigits]
  split
  next rest hminus =>
    obtain ⟨d, hd, hc⟩ := hdigits '-' (by rw [hminus]; exact List.mem_cons_self)
    exact absurd hc.symm (digitChar_ne d hd).2.1
  next rest hplus =>
    obtain ⟨d, hd, hc⟩ := hdigits '+' (by rw [hplus]; exact List.mem_cons_self)
    exact absurd hc.symm (digitChar_ne d hd).2.2.1
  next =>
    rw [hunsigned]
    rfl

theorem hasMarker_toDigits (n : Nat) : Hex.hasMarker (Nat.toDigits 10 n) = false := by
  have hdigits := allDigits_toDigits n
  unfold Hex.hasMarker
  split
  next rest hmarked =>
    obtain ⟨d, hd, hc⟩ := hdigits 'x' (by rw [hmarked]; simp)
    exact absurd hc.symm (digitChar_ne d hd).2.2.2.1
  next rest hmarked =>
    obtain ⟨d, hd, hc⟩ := hdigits 'X' (by rw [hmarked]; simp)
    exact absurd hc.symm (digitChar_ne d hd).2.2.2.2
  next => rfl

theorem isWritable_natCast {n : Nat} : isWritable n = true ↔ n < 10 ^ digitLimit := by
  rw [isWritable, decide_eq_true_iff, Int.natAbs_natCast, Nat.pow_eq]

theorem parse?_toString {n : Nat} (hn : n < 10 ^ digitLimit) :
    parse? (toString n) = some (n : Int) := by
  have htext : (toString n).toList = Nat.toDigits 10 n := by
    rw [Nat.toString_eq_repr, Nat.repr_eq_ofList_toDigits, String.toList_ofList]
  simp only [parse?, htext, hasMarker_toDigits, Bool.false_eq_true, if_false, decimal?_toDigits hn]

end Numeral

end ShardLedger.Text
