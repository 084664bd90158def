import Mathlib.Algebra.Group.Nat.Defs
import Mathlib.Data.List.Basic
import Mathlib.Data.List.Induction
import ShardLedger.Address.Bech32
import ShardLedger.Text.LowerCase

/-!
# Checksummed text reads back

Five-bit words give the bytes back that they were cut from, and no other words do.  The
remainder behind the checksum is linear in exclusive or: what the six words of a checksum
add to it does not depend on the values before them, so that exactly one choice of them
brings a remainder to one.
-/

namespace ShardLedger.Bech32

/-! ## Binary digits -/

@[simp]
theorem length_bits (width n : Nat) : (bits width n).length = width := by
  induction width generalizing n with
  | zero => rfl
  | succ width ih => rw [bits, List.length_append, ih, List.length_singleton]

theorem number_concat (digits : List Bool) (d : Bool) :
    number (digits ++ [d]) = 2 * number digits + d.toNat := by
  rw [number, List.foldl_append, List.foldl_cons, List.foldl_nil, number]

theorem number_bits {width n : Nat} (hn : n < 2 ^ width) : number (bits width n) = n := by
  induction width generalizing n with
  | zero =>
      have hzero : n = 0 := by omega
      rw [hzero]
      rfl
  | succ width ih =>
      have hhalf : n / 2 < 2 ^ width := by
        rw [Nat.pow_succ] at hn
        omega
      rw [bits, number_concat, ih hhalf]
      rcases Nat.mod_two_eq_zero_or_one n with hmod | hmod
      · rw [hmod]
        change 2 * (n / 2) + 0 = n
        omega
      · rw [hmod]
        change 2 * (n / 2) + 1 = n
        omega

theorem bits_concat (width n : Nat) (d : Bool) :
    bits (width + 1) (2 * n + d.toNat) = bits width n ++ [d] := by
  cases d with
  | false =>
      have hhalf : (2 * n + 0) / 2 = n := by omega
      have hmod : (2 * n + 0) % 2 = 0 := by omega
      rw [Bool.toNat_false, bits, hhalf, hmod]
      rfl
  | true =>
      have hhalf : (2 * n + 1) / 2 = n := by omega
      have hmod : (2 * n + 1) % 2 = 1 := by omega
      rw [Bool.toNat_true, bits, hhalf, hmod]
      rfl

theorem bits_number (digits : List Bool) : bits digits.length (number digits) = digits := by
  induction digits using List.reverseRecOn with
  | nil => rfl
  | append_singleton digits d ih =>
      rw [List.length_append, List.length_singleton, number_concat, bits_concat, ih]

theorem number_lt (digits : List Bool) : number digits < 2 ^ digits.length := by
  induction digits using List.reverseRecOn with
  | nil => decide
  | append_singleton digits d ih =>
      have hd : d.toNat ≤ 1 := Bool.toNat_le d
      rw [List.length_append, List.length_singleton, number_concat, Nat.pow_succ]
      omega

/-! ## Pieces -/

section

variable {α : Type} {size : Nat}

theorem pieces_nil (size : Nat) : pieces size ([] : List α) = [] := by
  rw [pieces, if_pos (Or.inr rfl)]

theorem pieces_eq_cons (hsize : 0 < size) {xs : List α} (hxs : xs ≠ []) :
    pieces size xs = xs.take size :: pieces size (xs.drop size) := by
  have hmore : ¬(size = 0 ∨ xs = []) := by
    rw [not_or]
    exact ⟨Nat.ne_of_gt hsize, hxs⟩
  rw [pieces, if_neg hmore]

theorem pieces_append (hsize : 0 < size) {xs : List α} (hxs : xs.length = size) (rest : List α) :
    pieces size (xs ++ rest) = xs :: pieces size rest := by
  have hne : xs ++ rest ≠ [] := by
    intro hnil
    rw [List.append_eq_nil_iff] at hnil
    rw [hnil.1] at hxs
    exact Nat.ne_of_gt hsize hxs.symm
  rw [pieces_eq_cons hsize hne, List.take_left' hxs, List.drop_left' hxs]

theorem length_le_of_mem_pieces {xs piece : List α} (hmem : piece ∈ pieces size xs) :
    piece.length ≤ size := by
  induction xs using pieces.induct size with
  | case1 xs hdone =>
      rw [pieces, if_pos hdone] at hmem
      cases hmem
  | case2 xs hmore ih =>
      rw [pieces, if_neg hmore] at hmem
      rcases List.mem_cons.mp hmem with rfl | hmem
      · exact List.length_take_le size xs
      · exact ih hmem

theorem length_fill {digits : List Bool} (hdigits : digits.length ≤ size) :
    (fill size digits).length = size := by
  rw [fill, List.length_append, List.length_replicate]
  omega

/-- Filling up the pieces of a list adds less than a piece to its end. -/
theorem exists_flatMap_fill (hsize : 0 < size) (digits : List Bool) :
    ∃ pad < size, (pieces size digits).flatMap (fill size) =
      digits ++ List.replicate pad false := by
  induction digits using pieces.induct size with
  | case1 digits hdone =>
      rcases hdone with hzero | rfl
      · exact absurd hzero (Nat.ne_of_gt hsize)
      · exact ⟨0, hsize, by rw [pieces_nil]; rfl⟩
  | case2 digits hmore ih =>
      rw [not_or] at hmore
      obtain ⟨pad, hpad, hrest⟩ := ih
      rw [pieces_eq_cons hsize hmore.2, List.flatMap_cons]
      by_cases hlong : size < digits.length
      · have hfull : fill size (digits.take size) = digits.take size := by
          have hlength : (digits.take size).length = size := by
            rw [List.length_take]
            omega
          rw [fill, hlength, Nat.sub_self, List.replicate_zero, List.append_nil]
        refine ⟨pad, hpad, ?_⟩
        rw [hfull, hrest, ← List.append_assoc, List.take_append_drop]
      · have hshort : digits.length ≤ size := Nat.le_of_not_lt hlong
        have hpos : 0 < digits.length := List.length_pos_iff.mpr hmore.2
        refine ⟨size - digits.length, by omega, ?_⟩
        rw [List.take_of_length_le hshort, List.drop_of_length_le hshort, pieces_nil, fill,
          List.flatMap_nil, List.append_nil]

end

/-! ## Words -/

theorem lt_of_mem_toWords {b : Bytes} {w : Nat} (hmem : w ∈ toWords b) : w < 32 := by
  obtain ⟨piece, hpiece, rfl⟩ := List.mem_map.mp hmem
  have hlt := number_lt (fill 5 piece)
  rw [length_fill (length_le_of_mem_pieces hpiece)] at hlt
  exact hlt

theorem flatMap_bits_toWords (b : Bytes) :
    (toWords b).flatMap (bits 5) =
      (pieces 5 (b.flatMap fun x => bits 8 x.toNat)).flatMap (fill 5) := by
  rw [toWords, List.flatMap_map]
  refine List.flatMap_congr fun piece hpiece => ?_
  have hlength := length_fill (length_le_of_mem_pieces hpiece)
  have hdigits := bits_number (fill 5 piece)
  rw [hlength] at hdigits
  exact hdigits

theorem pieces_flatMap_bits {width : Nat} (hwidth : 0 < width) (ns : List Nat) :
    pieces width (ns.flatMap (bits width)) = ns.map (bits width) := by
  induction ns with
  | nil => exact pieces_nil width
  | cons n ns ih =>
      rw [List.flatMap_cons, pieces_append hwidth (length_bits width n), ih, List.map_cons]

theorem bytes_flatMap_bits (b : Bytes) :
    (pieces 8 (b.flatMap fun x => bits 8 x.toNat)).map (fun piece => (number piece).toUInt8) =
      b := by
  have hpieces := pieces_flatMap_bits (by decide : 0 < 8) (b.map UInt8.toNat)
  rw [List.flatMap_map, List.map_map] at hpieces
  rw [hpieces, List.map_map]
  refine (List.map_congr_left fun x _ => ?_).trans (List.map_id b)
  change (number (bits 8 x.toNat)).toUInt8 = x
  rw [number_bits x.toNat_lt]
  exact UInt8.ofNat_toNat

/-- Words of five bits are determined by their digits. -/
theorem words_inj {words others : List Nat} (hwords : ∀ w ∈ words, w < 32)
    (hothers : ∀ w ∈ others, w < 32)
    (hdigits : words.flatMap (bits 5) = others.flatMap (bits 5)) : words = others := by
  have hnumbers : ∀ {ws : List Nat}, (∀ w ∈ ws, w < 32) →
      (pieces 5 (ws.flatMap (bits 5))).map number = ws := by
    intro ws hws
    rw [pieces_flatMap_bits (by decide), List.map_map]
    exact (List.map_congr_left fun w hw => number_bits (hws w hw)).trans (List.map_id ws)
  rw [← hnumbers hwords, hdigits, hnumbers hothers]

theorem length_flatMap_bits (b : Bytes) :
    (b.flatMap fun x => bits 8 x.toNat).length = b.length * 8 := by
  rw [List.length_flatMap]
  simp only [length_bits, List.map_const', List.sum_replicate_nat]

/-- The words of a byte string give it back. -/
theorem ofWords?_toWords (b : Bytes) : ofWords? (toWords b) = some b := by
  have hlength := length_flatMap_bits b
  have hbytes := bytes_flatMap_bits b
  obtain ⟨pad, hpad, hfill⟩ :=
    exists_flatMap_fill (by decide : 0 < 5) (b.flatMap fun x => bits 8 x.toNat)
  have hdigits := (flatMap_bits_toWords b).trans hfill
  generalize (b.flatMap fun x => bits 8 x.toNat) = digits at hlength hbytes hdigits
  have hwhole : (digits ++ List.replicate pad false).length / 8 * 8 = digits.length := by
    rw [List.length_append, List.length_replicate]
    omega
  have hrest : (List.replicate pad false).length < 5 ∧
      (List.replicate pad false).all (!·) = true := by
    constructor
    · rw [List.length_replicate]
      exact hpad
    · simp
  simp only [ofWords?, hdigits, hwhole, List.drop_left, List.take_left, if_pos hrest, hbytes]

/-- Cutting whole bytes out of digits and writing their digits again gives them back. -/
theorem flatMap_bits_pieces {digits : List Bool} (hwhole : 8 ∣ digits.length) :
    ((pieces 8 digits).map fun piece => (number piece).toUInt8).flatMap
      (fun x => bits 8 x.toNat) = digits := by
  induction digits using pieces.induct 8 with
  | case1 digits hdone =>
      rcases hdone with hzero | rfl
      · cases hzero
      · rw [pieces_nil]
        rfl
  | case2 digits hmore ih =>
      rw [not_or] at hmore
      have hpos : 0 < digits.length := List.length_pos_iff.mpr hmore.2
      have hfull : (digits.take 8).length = 8 := by
        rw [List.length_take]
        omega
      have hbyte : bits 8 (number (digits.take 8)).toUInt8.toNat = digits.take 8 := by
        have hlt := number_lt (digits.take 8)
        have hdigits := bits_number (digits.take 8)
        rw [hfull] at hlt hdigits
        have hnat : (number (digits.take 8)).toUInt8.toNat = number (digits.take 8) :=
          Nat.mod_eq_of_lt hlt
        rw [hnat, hdigits]
      have hrest : 8 ∣ (digits.drop 8).length := by
        rw [List.length_drop]
        omega
      rw [pieces_eq_cons (by decide) hmore.2, List.map_cons, List.flatMap_cons, hbyte, ih hrest,
        List.take_append_drop]

theorem length_flatMap_bits_words (words : List Nat) :
    (words.flatMap (bits 5)).length = words.length * 5 := by
  rw [List.length_flatMap]
  simp only [length_bits, List.map_const', List.sum_replicate_nat]

/-- Words that give a byte string are its words. -/
theorem toWords_of_ofWords? {words : List Nat} {b : Bytes} (hwords : ∀ w ∈ words, w < 32)
    (hbytes : ofWords? words = some b) : toWords b = words := by
  simp only [ofWords?, Option.ite_none_right_eq_some, Option.some.injEq] at hbytes
  obtain ⟨⟨hshort, hzeros⟩, rfl⟩ := hbytes
  have hlength := length_flatMap_bits_words words
  apply words_inj (fun w => lt_of_mem_toWords) hwords
  have hcount := length_flatMap_bits_words (toWords ((pieces 8 ((words.flatMap (bits 5)).take
    ((words.flatMap (bits 5)).length / 8 * 8))).map fun piece => (number piece).toUInt8))
  rw [flatMap_bits_toWords] at hcount ⊢
  generalize words.flatMap (bits 5) = digits at hshort hzeros hlength hcount ⊢
  have hwhole : (digits.take (digits.length / 8 * 8)).length = digits.length / 8 * 8 := by
    rw [List.length_take]
    omega
  rw [flatMap_bits_pieces (by rw [hwhole]; exact Nat.dvd_mul_left 8 _)] at hcount ⊢
  obtain ⟨pad, hpad, hfill⟩ :=
    exists_flatMap_fill (by decide : 0 < 5) (digits.take (digits.length / 8 * 8))
  rw [hfill, List.length_append, hwhole, List.length_replicate] at hcount
  -- Both the padding and the digits left over are what fewer than five digits fill up a word.
  have hrest : digits.drop (digits.length / 8 * 8) = List.replicate pad false := by
    rw [List.length_drop] at hshort
    rw [List.eq_replicate_iff, List.length_drop]
    refine ⟨by omega, fun d hd => ?_⟩
    have hd' := List.all_eq_true.mp hzeros d hd
    simpa using hd'
  rw [hfill, ← hrest, List.take_append_drop]

/-! ## Characters -/

theorem word?_character : ∀ w < 32, word? (character w) = some w := by decide

theorem isLowered_character : ∀ w < 32, Text.isLowered (character w) = true := by decide

theorem mapM_word?_character {words : List Nat} (hwords : ∀ w ∈ words, w < 32) :
    (words.map character).mapM word? = some words := by
  induction words with
  | nil => rfl
  | cons w rest ih =>
      obtain ⟨hw, hrest⟩ := List.forall_mem_cons.mp hwords
      rw [List.map_cons, List.mapM_cons, word?_character w hw, ih hrest]
      rfl

theorem character_of_word? {c : Char} {w : Nat} (hword : word? c = some w) :
    w < 32 ∧ character w = c := by
  obtain ⟨hlt, hchar, -⟩ := List.idxOf?_eq_some_iff.mp hword
  refine ⟨hlt, ?_⟩
  rw [character, List.getD_eq_getElem?_getD, List.getElem?_eq_getElem hlt, hchar,
    Option.getD_some]

theorem map_character_of_mapM {cs : List Char} {words : List Nat}
    (hread : cs.mapM word? = some words) : (∀ w ∈ words, w < 32) ∧ words.map character = cs := by
  induction cs generalizing words with
  | nil =>
      cases hread
      exact ⟨List.forall_mem_nil _, rfl⟩
  | cons c cs ih =>
      rw [List.mapM_cons, Option.bind_eq_bind, Option.bind_eq_some_iff] at hread
      obtain ⟨w, hword, hread⟩ := hread
      rw [Option.bind_eq_bind, Option.bind_eq_some_iff] at hread
      obtain ⟨rest, hrest, hwords⟩ := hread
      cases hwords
      obtain ⟨hlt, hchar⟩ := character_of_word? hword
      obtain ⟨hlts, hchars⟩ := ih hrest
      refine ⟨List.forall_mem_cons.mpr ⟨hlt, hlts⟩, ?_⟩
      rw [List.map_cons, hchar, hchars]

/-! ## The remainder -/

/-- Shift values into a remainder one after the other. -/
def absorb (r : BitVec 30) (values : List Nat) : BitVec 30 :=
  values.foldl (fun r v => shiftIn r (BitVec.ofNat 30 v)) r

theorem remainder_append (values later : List Nat) :
    remainder (values ++ later) = absorb (remainder values) later :=
  List.foldl_append

theorem absorb_cons (r : BitVec 30) (v : Nat) (values : List Nat) :
    absorb r (v :: values) = absorb (shiftIn r (BitVec.ofNat 30 v)) values := rfl

/-- Add a generator to a sum if its bit of a remainder is set. -/
def gather (r sum : BitVec 30) (term : BitVec 30 × Nat) : BitVec 30 :=
  if r.getLsbD (25 + term.2) then sum ^^^ term.1 else sum

theorem gather_xor (a b s t : BitVec 30) (term : BitVec 30 × Nat) :
    gather (a ^^^ b) (s ^^^ t) term = gather a s term ^^^ gather b t term := by
  rw [gather, gather, gather, BitVec.getLsbD_xor]
  cases a.getLsbD (25 + term.2) with
  | false =>
      cases b.getLsbD (25 + term.2) with
      | false => rfl
      | true => exact BitVec.xor_assoc s t term.1
  | true =>
      cases b.getLsbD (25 + term.2) with
      | false =>
          change s ^^^ t ^^^ term.1 = s ^^^ term.1 ^^^ t
          ac_rfl
      | true =>
          have hcancel : s ^^^ term.1 ^^^ (t ^^^ term.1) = s ^^^ t ^^^ (term.1 ^^^ term.1) := by
            ac_rfl
          change s ^^^ t = s ^^^ term.1 ^^^ (t ^^^ term.1)
          rw [hcancel, BitVec.xor_self, BitVec.xor_zero]

theorem feedback_xor (a b : BitVec 30) : feedback (a ^^^ b) = feedback a ^^^ feedback b := by
  have hfold : ∀ (terms : List (BitVec 30 × Nat)) (s t : BitVec 30),
      terms.foldl (gather (a ^^^ b)) (s ^^^ t) =
        terms.foldl (gather a) s ^^^ terms.foldl (gather b) t := by
    intro terms
    induction terms with
    | nil => intro s t; rfl
    | cons term terms ih =>
        intro s t
        rw [List.foldl_cons, List.foldl_cons, List.foldl_cons, gather_xor, ih]
  exact hfold generators.zipIdx 0 0

theorem shiftIn_xor (a b v w : BitVec 30) :
    shiftIn (a ^^^ b) (v ^^^ w) = shiftIn a v ^^^ shiftIn b w := by
  rw [shiftIn, shiftIn, shiftIn, feedback_xor, BitVec.shiftLeft_xor_distrib]
  ac_rfl

/-- What values add to a remainder does not depend on it. -/
theorem absorb_xor (a b : BitVec 30) (values : List Nat) :
    absorb (a ^^^ b) values = absorb a (List.replicate values.length 0) ^^^ absorb b values := by
  induction values generalizing a b with
  | nil => rfl
  | cons v values ih =>
      have hsplit := shiftIn_xor a b 0#30 (BitVec.ofNat 30 v)
      rw [BitVec.zero_xor] at hsplit
      rw [absorb_cons, hsplit, ih, List.length_cons, List.replicate_succ, absorb_cons, absorb_cons]

/-! ## Six words -/

theorem feedback_of_lt {r : BitVec 30} (hr : r.toNat < 2 ^ 25) : feedback r = 0#30 := by
  have hbit : ∀ i, r.getLsbD (25 + i) = false := by
    intro i
    apply Nat.testBit_lt_two_pow
    exact Nat.lt_of_lt_of_le hr (Nat.pow_le_pow_right (by decide) (Nat.le_add_right 25 i))
  have hgather : ∀ sum term, gather r sum term = sum := by
    intro sum term
    rw [gather, hbit]
    rfl
  have hfold : ∀ terms : List (BitVec 30 × Nat), terms.foldl (gather r) 0#30 = 0#30 := by
    intro terms
    induction terms with
    | nil => rfl
    | cons term terms ih => rw [List.foldl_cons, hgather, ih]
  exact hfold generators.zipIdx

theorem feedback_ushiftRight {x : BitVec 30} {shift : Nat} (hshift : 5 ≤ shift) :
    feedback (x >>> shift) = 0#30 := by
  apply feedback_of_lt
  have hx := x.isLt
  have hpow : 2 ^ 5 ≤ 2 ^ shift := Nat.pow_le_pow_right (by decide) hshift
  rw [BitVec.toNat_ushiftRight, Nat.shiftRight_eq_div_pow]
  calc x.toNat / 2 ^ shift ≤ x.toNat / 2 ^ 5 := Nat.div_le_div_left hpow (by decide)
    _ < 2 ^ 25 := by omega

/-- Shifting in the word below a shifted number shifts it five bits less. -/
theorem shiftIn_ushiftRight (x : BitVec 30) (shift : Nat) :
    shiftIn (x >>> (shift + 5)) (BitVec.ofNat 30 ((x.toNat >>> shift) % 32)) = x >>> shift := by
  rw [shiftIn, feedback_ushiftRight (by omega), BitVec.xor_zero]
  apply BitVec.eq_of_getLsbD_eq
  intro i hi
  have hword : (BitVec.ofNat 30 ((x.toNat >>> shift) % 32)).getLsbD i =
      (decide (i < 5) && x.getLsbD (shift + i)) := by
    have hpow : 32 = 2 ^ 5 := rfl
    rw [BitVec.getLsbD_ofNat, hpow, Nat.testBit_mod_two_pow, Nat.testBit_shiftRight]
    simp [hi, BitVec.getLsbD]
  rw [BitVec.getLsbD_xor, BitVec.getLsbD_shiftLeft, BitVec.getLsbD_ushiftRight, hword,
    BitVec.getLsbD_ushiftRight]
  by_cases hlow : i < 5
  · simp [hlow]
  · have hindex : shift + 5 + (i - 5) = shift + i := by omega
    simp [hlow, hi, hindex]

theorem absorb_words (x : BitVec 30) (count : Nat) :
    absorb (x >>> (5 * count))
      ((List.range count).reverse.map fun i => (x.toNat >>> (5 * i)) % 32) = x := by
  induction count with
  | zero => exact BitVec.ushiftRight_zero x
  | succ count ih =>
      rw [List.range_succ, List.reverse_append, List.reverse_singleton, List.singleton_append,
        List.map_cons, absorb_cons, Nat.mul_succ, shiftIn_ushiftRight, ih]

theorem absorb_checksumWords (x : BitVec 30) : absorb 0#30 (checksumWords x) = x := by
  have hzero : x >>> (5 * 6) = 0#30 := by
    apply BitVec.eq_of_getLsbD_eq
    intro i hi
    rw [BitVec.getLsbD_ushiftRight, BitVec.getLsbD_of_ge x _ (by omega), BitVec.getLsbD_zero]
  have hwords := absorb_words x 6
  rw [hzero] at hwords
  exact hwords

/-- A word shifted into a small remainder takes the place of its last five bits. -/
theorem toNat_shiftIn {r : BitVec 30} {w : Nat} (hr : r.toNat < 2 ^ 25) (hw : w < 32) :
    (shiftIn r (BitVec.ofNat 30 w)).toNat = r.toNat * 32 + w := by
  have hlt : r.toNat * 32 + w < 2 ^ 30 := by omega
  have hx : (BitVec.ofNat 30 (r.toNat * 32 + w)).toNat = r.toNat * 32 + w := by
    rw [BitVec.toNat_ofNat, Nat.mod_eq_of_lt hlt]
  have hshift := shiftIn_ushiftRight (BitVec.ofNat 30 (r.toNat * 32 + w)) 0
  have hhigh : BitVec.ofNat 30 (r.toNat * 32 + w) >>> (0 + 5) = r := by
    apply BitVec.eq_of_toNat_eq
    rw [BitVec.toNat_ushiftRight, hx, Nat.shiftRight_eq_div_pow]
    omega
  have hlow : ((r.toNat * 32 + w) >>> 0) % 32 = w := by
    rw [Nat.shiftRight_zero]
    omega
  rw [hhigh, hx, hlow, BitVec.ushiftRight_zero] at hshift
  rw [hshift, hx]

theorem toNat_absorb {r : BitVec 30} {words : List Nat} (hlength : words.length ≤ 6)
    (hr : r.toNat < 32 ^ (6 - words.length)) (hwords : ∀ w ∈ words, w < 32) :
    (absorb r words).toNat = words.foldl (fun n w => n * 32 + w) r.toNat := by
  induction words generalizing r with
  | nil => rfl
  | cons w words ih =>
      obtain ⟨hw, hrest⟩ := List.forall_mem_cons.mp hwords
      rw [List.length_cons] at hlength hr
      have hsmall : r.toNat < 2 ^ 25 :=
        Nat.lt_of_lt_of_le hr (Nat.pow_le_pow_right (by decide) (by omega : _ ≤ 5))
      have hroom : 6 - words.length = 6 - (words.length + 1) + 1 := by omega
      have hnext : (shiftIn r (BitVec.ofNat 30 w)).toNat < 32 ^ (6 - words.length) := by
        rw [toNat_shiftIn hsmall hw, hroom, Nat.pow_succ]
        omega
      rw [absorb_cons, ih (by omega) hnext hrest, toNat_shiftIn hsmall hw, List.foldl_cons]

/-- Six words that were shifted in are the words of the remainder. -/
theorem checksumWords_absorb {words : List Nat} (hlength : words.length = checksumLength)
    (hwords : ∀ w ∈ words, w < 32) : checksumWords (absorb 0#30 words) = words := by
  have hbound : words.length ≤ 6 := Nat.le_of_eq hlength
  have hroom : (0#30).toNat < 32 ^ (6 - words.length) := Nat.pow_pos (by decide : 0 < 32)
  have hvalue := toNat_absorb hbound hroom hwords
  obtain ⟨a, b, c, d, e, f, rfl⟩ : ∃ a b c d e f, words = [a, b, c, d, e, f] := by
    match words, hlength with
    | [a, b, c, d, e, f], _ => exact ⟨a, b, c, d, e, f, rfl⟩
  simp only [List.forall_mem_cons] at hwords
  obtain ⟨ha, hb, hc, hd, he, hf, -⟩ := hwords
  simp only [List.foldl_cons, List.foldl_nil, BitVec.toNat_zero] at hvalue
  simp only [checksumWords, List.map_cons, List.map_nil, hvalue, Nat.shiftRight_eq_div_pow,
    List.cons.injEq, and_true]
  omega

theorem lt_of_mem_checksum {front : List Char} {words : List Nat} {w : Nat}
    (hmem : w ∈ checksum front words) : w < 32 := by
  obtain ⟨shift, -, rfl⟩ := List.mem_map.mp hmem
  exact Nat.mod_lt _ (by decide)

theorem length_checksum (front : List Char) (words : List Nat) :
    (checksum front words).length = checksumLength := rfl

/-- Words followed by their checksum are accepted. -/
theorem isChecked_append_checksum (front : List Char) (words : List Nat) :
    isChecked front (words ++ checksum front words) = true := by
  have hchecked : remainder (expand front ++ (words ++ checksum front words)) = 1#30 := by
    rw [← List.append_assoc, remainder_append]
    generalize hr : remainder (expand front ++ words) = r
    have hzeros : checksum front words =
        checksumWords (absorb r (List.replicate checksumLength 0) ^^^ 1#30) := by
      rw [checksum, remainder_append, hr]
      rfl
    have hsplit := absorb_xor r 0#30 (checksum front words)
    rw [BitVec.xor_zero, length_checksum] at hsplit
    rw [hsplit, hzeros, absorb_checksumWords, ← BitVec.xor_assoc, BitVec.xor_self,
      BitVec.zero_xor]
  rw [isChecked, hchecked]
  rfl

/-- Words are accepted only with their own checksum behind them. -/
theorem eq_checksum_of_isChecked {front : List Char} {words last : List Nat}
    (hlength : last.length = checksumLength) (hlast : ∀ w ∈ last, w < 32)
    (hchecked : isChecked front (words ++ last) = true) : last = checksum front words := by
  have hone : absorb (remainder (expand front ++ words)) last = 1#30 := by
    rw [← remainder_append, List.append_assoc]
    exact of_decide_eq_true hchecked
  have hzeros : checksum front words = checksumWords
      (absorb (remainder (expand front ++ words)) (List.replicate checksumLength 0) ^^^ 1#30) := by
    rw [checksum, remainder_append]
    rfl
  generalize remainder (expand front ++ words) = r at hone hzeros
  have hsplit := absorb_xor r 0#30 last
  rw [BitVec.xor_zero, hone, hlength] at hsplit
  rw [hzeros, hsplit, ← BitVec.xor_assoc, BitVec.xor_self, BitVec.zero_xor,
    checksumWords_absorb hlength hlast]

end ShardLedger.Bech32
