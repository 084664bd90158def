import ShardLedger.Proofs.Bytes.Hex

/-!
# Spellings of byte strings

Text spells a byte string with two hexadecimal digits for each byte, of either case, and
with blanks anywhere between the bytes.  Reading accepts the spellings and nothing else.
Without blanks, the text is the lower-case form except for the case of its digits.
-/

namespace ShardLedger.Hex

/-! ## Characters -/

theorem lt_of_value? {c : Char} {n : Nat} (hvalue : value? c = some n) : c.toNat < 128 := by
  have hle : c ≤ 'f' ∨ c ≤ 'F' ∨ c ≤ '9' := by
    by_contra hgreater
    have hnone : value? c = none := by
      simp only [not_or] at hgreater
      simp only [value?, hgreater, and_false, if_false]
    rw [hnone] at hvalue
    cases hvalue
  simp only [Char.le_def, UInt32.le_iff_toNat_le] at hle
  change c.val.toNat < 128
  rcases hle with hle | hle | hle
  · exact Nat.lt_of_le_of_lt hle (by decide)
  · exact Nat.lt_of_le_of_lt hle (by decide)
  · exact Nat.lt_of_le_of_lt hle (by decide)

/-- What counts as a digit is a digit in its lower case, and no blank. -/
theorem digit_of_value? {c : Char} {n : Nat} (hvalue : value? c = some n) :
    n < 16 ∧ digit n = c.toLower ∧ isBlank c = false := by
  have hall : ∀ k < 128, ∀ n ∈ value? (Char.ofNat k),
      n < 16 ∧ digit n = (Char.ofNat k).toLower ∧ isBlank (Char.ofNat k) = false := by
    decide
  have hchar := hall c.toNat (lt_of_value? hvalue) n
  rw [Char.ofNat_toNat] at hchar
  exact hchar hvalue

theorem toLower_cases (c : Char) : c.toLower = c ∨ ∃ k < 26, c = Char.ofNat (65 + k) := by
  by_cases hupper : c.val ≥ 'A'.val ∧ c.val ≤ 'Z'.val
  · right
    have hlow : 65 ≤ c.toNat := UInt32.le_iff_toNat_le.mp hupper.1
    have hhigh : c.toNat ≤ 90 := UInt32.le_iff_toNat_le.mp hupper.2
    refine ⟨c.toNat - 65, by omega, ?_⟩
    rw [Nat.add_sub_cancel' hlow, Char.ofNat_toNat]
  · left
    exact dif_neg hupper

theorem value?_toLower (c : Char) : value? c.toLower = value? c := by
  have hall : ∀ k < 26, value? (Char.ofNat (65 + k)).toLower = value? (Char.ofNat (65 + k)) := by
    decide
  rcases toLower_cases c with hsame | ⟨k, hk, rfl⟩
  · rw [hsame]
  · exact hall k hk

theorem isBlank_toLower (c : Char) : isBlank c.toLower = isBlank c := by
  have hall : ∀ k < 26,
      isBlank (Char.ofNat (65 + k)).toLower = isBlank (Char.ofNat (65 + k)) := by
    decide
  rcases toLower_cases c with hsame | ⟨k, hk, rfl⟩
  · rw [hsame]
  · exact hall k hk

/-! ## Digits of either case -/

theorem exists_digit_of_mem_encode {c : Char} {b : Bytes} (hmem : c ∈ encode b) :
    ∃ n < 16, c = digit n := by
  obtain ⟨x, -, hpair⟩ := List.mem_flatMap.mp hmem
  have hx := x.toNat_lt
  simp only [pair, List.mem_cons, List.not_mem_nil, or_false] at hpair
  rcases hpair with hhigh | hlow
  · exact ⟨_, by omega, hhigh⟩
  · exact ⟨_, by omega, hlow⟩

theorem isSome_value?_of_toLower_mem {c : Char} {b : Bytes} (hmem : c.toLower ∈ encode b) :
    (value? c).isSome = true := by
  obtain ⟨n, hn, hlower⟩ := exists_digit_of_mem_encode hmem
  rw [← value?_toLower, hlower, value?_digit n hn]
  rfl

theorem map_encode_eq_self {f : Char → Char} (hf : ∀ n < 16, f (digit n) = digit n) (b : Bytes) :
    (encode b).map f = encode b := by
  have hself : ∀ c ∈ encode b, f c = id c := by
    intro c hmem
    obtain ⟨n, hn, rfl⟩ := exists_digit_of_mem_encode hmem
    exact hf n hn
  rw [List.map_congr_left hself, List.map_id]

theorem map_toLower_encode (b : Bytes) : (encode b).map Char.toLower = encode b :=
  map_encode_eq_self (by decide) b

/-- The digits of a byte string in capitals have them for their lower case. -/
theorem map_toLower_map_toUpper_encode (b : Bytes) :
    ((encode b).map Char.toUpper).map Char.toLower = encode b := by
  rw [List.map_map]
  exact map_encode_eq_self (by decide) b

/-! ## Reading -/

/-- The case of the digits has no say. -/
theorem decode_map_toLower (cs : List Char) : decode (cs.map Char.toLower) = decode cs := by
  fun_induction decode cs with
  | case1 => rfl
  | case2 c hblank =>
      simp only [List.map_cons, List.map_nil, decode, isBlank_toLower, if_pos hblank]
  | case3 c hblank =>
      simp only [List.map_cons, List.map_nil, decode, isBlank_toLower, if_neg hblank]
  | case4 c d rest hblank ih =>
      rw [List.map_cons] at ih
      rw [List.map_cons, List.map_cons, decode, isBlank_toLower, if_pos hblank, ih]
  | case5 c d rest hblank ih =>
      rw [List.map_cons, List.map_cons, decode, isBlank_toLower, if_neg hblank, value?_toLower,
        value?_toLower, ih]

/-- Text that spells a byte string: pairs of digits, and blanks in front of pairs and at the end. -/
inductive Spells : List Char → Bytes → Prop
  | nil : Spells [] []
  | blank {c : Char} {cs : List Char} {b : Bytes} (hblank : isBlank c = true)
      (hrest : Spells cs b) : Spells (c :: cs) b
  | byte {c d : Char} {cs : List Char} {b : Bytes} {high low : Nat}
      (hhigh : value? c = some high) (hlow : value? d = some low) (hrest : Spells cs b) :
      Spells (c :: d :: cs) ((16 * high + low).toUInt8 :: b)

theorem decode_eq_some_iff {cs : List Char} {b : Bytes} : decode cs = some b ↔ Spells cs b := by
  constructor
  · intro hdecode
    fun_induction decode cs generalizing b with
    | case1 =>
        cases hdecode
        exact .nil
    | case2 c hblank =>
        cases hdecode
        exact .blank hblank .nil
    | case3 => cases hdecode
    | case4 c d rest hblank ih => exact .blank hblank (ih hdecode)
    | case5 c d rest hblank ih =>
        simp only [Option.bind_eq_bind, Option.bind_eq_some_iff, Option.pure_def,
          Option.some.injEq] at hdecode
        obtain ⟨high, hhigh, low, hlow, bytes, hbytes, rfl⟩ := hdecode
        exact .byte hhigh hlow (ih hbytes)
  · intro hspells
    induction hspells with
    | nil => rfl
    | @blank c cs b hblank hrest ih =>
        cases cs with
        | nil =>
            cases ih
            rw [decode, if_pos hblank]
        | cons d rest => rw [decode, if_pos hblank, ih]
    | byte hhigh hlow hrest ih =>
        obtain ⟨-, -, hblank⟩ := digit_of_value? hhigh
        rw [decode, hblank, if_neg Bool.false_ne_true, hhigh, hlow, ih]
        rfl

namespace Spells

theorem append_blank {cs : List Char} {b : Bytes} (hspells : Spells cs b) {c : Char}
    (hblank : isBlank c = true) : Spells (cs ++ [c]) b := by
  induction hspells with
  | nil => exact .blank hblank .nil
  | blank hblank' _ ih => exact .blank hblank' ih
  | byte hhigh hlow _ ih => exact .byte hhigh hlow ih

/-- Every byte takes two characters, and the blanks come on top. -/
theorem length_eq {cs : List Char} {b : Bytes} (hspells : Spells cs b) :
    cs.length = 2 * b.length + cs.countP isBlank := by
  induction hspells with
  | nil => rfl
  | blank hblank hrest ih =>
      rw [List.length_cons, List.countP_cons_of_pos hblank, ih, Nat.add_assoc]
  | byte hhigh hlow hrest ih =>
      obtain ⟨-, -, hblank⟩ := digit_of_value? hhigh
      obtain ⟨-, -, hblank'⟩ := digit_of_value? hlow
      rw [List.length_cons, List.length_cons, List.length_cons,
        List.countP_cons_of_neg (by simp [hblank]), List.countP_cons_of_neg (by simp [hblank']), ih]
      omega

/-- Without blanks, the text is the lower-case form except for the case of its digits. -/
theorem map_toLower_eq {cs : List Char} {b : Bytes} (hspells : Spells cs b)
    (hblanks : ∀ c ∈ cs, isBlank c = false) : cs.map Char.toLower = encode b := by
  induction hspells with
  | nil => rfl
  | blank hblank hrest ih =>
      have hfalse := hblanks _ List.mem_cons_self
      rw [hblank] at hfalse
      cases hfalse
  | @byte c d cs b high low hhigh hlow hrest ih =>
      obtain ⟨hlt, hdigit, -⟩ := digit_of_value? hhigh
      obtain ⟨hlt', hdigit', -⟩ := digit_of_value? hlow
      have hbyte : (16 * high + low).toUInt8.toNat = 16 * high + low := by
        rw [BigEndian.toNat_toUInt8]
        omega
      have hpair : pair (16 * high + low).toUInt8 = [c.toLower, d.toLower] := by
        have hdiv : (16 * high + low) / 16 = high := by omega
        have hmod : (16 * high + low) % 16 = low := by omega
        rw [pair, hbyte, hdiv, hmod, hdigit, hdigit']
      rw [List.forall_mem_cons, List.forall_mem_cons] at hblanks
      rw [List.map_cons, List.map_cons, ih hblanks.2.2, encode, encode, List.flatMap_cons, hpair]
      rfl

end Spells

/-- Digits alone, in even number, spell a byte string. -/
theorem exists_spells_of_digits {cs : List Char} {n : Nat} (hlength : cs.length = 2 * n)
    (hdigits : ∀ c ∈ cs, (value? c).isSome = true) : ∃ b, Spells cs b := by
  induction n generalizing cs with
  | zero =>
      rw [List.eq_nil_of_length_eq_zero hlength]
      exact ⟨[], .nil⟩
  | succ n ih =>
      match cs, hlength with
      | c :: d :: rest, hlength =>
          rw [List.forall_mem_cons, List.forall_mem_cons] at hdigits
          obtain ⟨high, hhigh⟩ := Option.isSome_iff_exists.mp hdigits.1
          obtain ⟨low, hlow⟩ := Option.isSome_iff_exists.mp hdigits.2.1
          obtain ⟨b, hrest⟩ := @ih rest (by simpa [Nat.mul_succ] using hlength) hdigits.2.2
          exact ⟨_, .byte hhigh hlow hrest⟩

/-- A spelling without blanks consists of digits. -/
theorem Spells.isSome_value? {cs : List Char} {b : Bytes} (hspells : Spells cs b)
    (hblanks : ∀ c ∈ cs, isBlank c = false) : ∀ c ∈ cs, (value? c).isSome = true := by
  induction hspells with
  | nil => simp
  | blank hblank hrest ih =>
      have hfalse := hblanks _ List.mem_cons_self
      rw [hblank] at hfalse
      cases hfalse
  | byte hhigh hlow hrest ih =>
      rw [List.forall_mem_cons, List.forall_mem_cons] at hblanks ⊢
      exact ⟨by rw [hhigh]; rfl, by rw [hlow]; rfl, ih hblanks.2.2⟩

/-! ## Markers -/

/-- The two markers, and none. -/
def markers : List String := ["0x", "0X", ""]

theorem dropMarker_append {marker : String} (hmarker : marker ∈ markers) {cs : List Char}
    (hdigits : ∀ c ∈ cs, (value? c).isSome = true) :
    dropMarker (marker ++ String.ofList cs).toList = cs := by
  simp only [markers, List.mem_cons, List.not_mem_nil, or_false] at hmarker
  rcases hmarker with rfl | rfl | rfl
  · exact dropMarker_marked cs
  · have hmarked : ("0X" ++ String.ofList cs).toList = '0' :: 'X' :: cs := by
      simp [String.toList_append]
    rw [hmarked, dropMarker]
  · rw [String.empty_append, String.toList_ofList]
    unfold dropMarker
    split
    next => exact absurd (hdigits 'x' (by simp)) (by decide)
    next => exact absurd (hdigits 'X' (by simp)) (by decide)
    next => rfl

end ShardLedger.Hex
