import ShardLedger.Proofs.Address.Frame

/-!
# Damaged addresses are refused

Shifting zero into a remainder loses nothing, and six words in a row fill the remainder
without any of them leaving it.  So two sequences with the same remainder never differ in
six neighbouring values only.  A character of the front contributes two values four places
apart, a character of the body one: damage to one of the former, or to six neighbours of
the latter, is detected.
-/

namespace ShardLedger

/-- A list that differs from another in a window only has the same parts around it. -/
theorem window_split {α : Type} {xs ys : List α} {start width : Nat}
    (hsame : ∀ j, j < start ∨ start + width ≤ j → xs[j]? = ys[j]?) :
    xs.take start = ys.take start ∧ xs.drop (start + width) = ys.drop (start + width) := by
  constructor
  · apply List.ext_getElem?
    intro j
    by_cases hj : j < start
    · rw [List.getElem?_take_of_lt hj, List.getElem?_take_of_lt hj, hsame j (Or.inl hj)]
    · rw [List.getElem?_take_eq_none (by omega), List.getElem?_take_eq_none (by omega)]
  · apply List.ext_getElem?
    intro j
    rw [List.getElem?_drop, List.getElem?_drop, hsame _ (Or.inr (Nat.le_add_right _ _))]

namespace Bech32

/-! ## What a remainder tells about its values -/

/-- The sum of the generators that bits choose. -/
def chosen (choice : List Bool) : BitVec 30 :=
  (generators.zip choice).foldl (fun sum (generator, b) => if b then sum ^^^ generator else sum) 0

theorem feedback_eq_chosen (r : BitVec 30) :
    feedback r = chosen [r.getLsbD 25, r.getLsbD 26, r.getLsbD 27, r.getLsbD 28, r.getLsbD 29] :=
  rfl

/-- However generators are added up, the last five bits tell that there is one. -/
theorem eq_false_of_chosen : ∀ b0 b1 b2 b3 b4 : Bool,
    (chosen [b0, b1, b2, b3, b4]).toNat % 32 = 0 →
      b0 = false ∧ b1 = false ∧ b2 = false ∧ b3 = false ∧ b4 = false := by
  decide

/-- Shifting in zero brings only the remainder zero to zero. -/
theorem eq_zero_of_shiftIn {r : BitVec 30} (hzero : shiftIn r 0#30 = 0#30) : r = 0#30 := by
  have hfeedback : r <<< 5 = feedback r := by
    rw [shiftIn, BitVec.xor_zero, BitVec.xor_eq_zero_iff] at hzero
    exact hzero
  have hlow : (feedback r).toNat % 32 = 0 := by
    rw [← hfeedback, BitVec.toNat_shiftLeft, Nat.shiftLeft_eq]
    omega
  rw [feedback_eq_chosen] at hlow hfeedback
  obtain ⟨h25, h26, h27, h28, h29⟩ := eq_false_of_chosen _ _ _ _ _ hlow
  rw [h25, h26, h27, h28, h29] at hfeedback
  apply BitVec.eq_of_getLsbD_eq
  intro i hi
  rw [BitVec.getLsbD_zero]
  by_cases hhigh : 25 ≤ i
  · obtain rfl | rfl | rfl | rfl | rfl : i = 25 ∨ i = 26 ∨ i = 27 ∨ i = 28 ∨ i = 29 := by omega
    · exact h25
    · exact h26
    · exact h27
    · exact h28
    · exact h29
  · have hnone : chosen [false, false, false, false, false] = 0#30 := rfl
    have hroom : i + 5 < 30 := by omega
    have hbit : (r <<< 5).getLsbD (i + 5) = false := by
      rw [hfeedback, hnone, BitVec.getLsbD_zero]
    rw [BitVec.getLsbD_shiftLeft, decide_eq_true hroom, Nat.add_sub_cancel,
      decide_eq_false (Nat.not_lt.mpr (Nat.le_add_left 5 i))] at hbit
    exact hbit

theorem absorb_zeros_eq_zero {r : BitVec 30} {count : Nat}
    (hzero : absorb r (List.replicate count 0) = 0#30) : r = 0#30 := by
  induction count generalizing r with
  | zero => exact hzero
  | succ count ih =>
      rw [List.replicate_succ, absorb_cons] at hzero
      exact eq_zero_of_shiftIn (ih hzero)

/-- The same values do not bring different remainders together. -/
theorem absorb_injective (values : List Nat) : Function.Injective (absorb · values) := by
  intro r r' hsame
  have hsplit := absorb_xor (r ^^^ r') r' values
  rw [BitVec.xor_assoc, BitVec.xor_self, BitVec.xor_zero] at hsplit
  have hzero : absorb (r ^^^ r') (List.replicate values.length 0) = 0#30 := by
    apply BitVec.xor_left_inj (absorb r' values) |>.mp
    rw [← hsplit, BitVec.zero_xor]
    exact hsame
  exact BitVec.xor_eq_zero_iff.mp (absorb_zeros_eq_zero hzero)

/-- Words are the digits of a number. -/
theorem foldl_words_inj {words others : List Nat} (hlength : words.length = others.length)
    (hwords : ∀ w ∈ words, w < 32) (hothers : ∀ w ∈ others, w < 32) {n m : Nat}
    (hsame : words.foldl (fun n w => n * 32 + w) n = others.foldl (fun n w => n * 32 + w) m) :
    n = m ∧ words = others := by
  induction words generalizing others n m with
  | nil =>
      obtain rfl := List.length_eq_zero_iff.mp hlength.symm
      exact ⟨hsame, rfl⟩
  | cons w words ih =>
      cases others with
      | nil => cases hlength
      | cons w' others =>
          rw [List.forall_mem_cons] at hwords hothers
          obtain ⟨hnumber, rfl⟩ := ih (Nat.succ.inj hlength) hwords.2 hothers.2 hsame
          change n * 32 + w = m * 32 + w' at hnumber
          obtain ⟨rfl, rfl⟩ : n = m ∧ w = w' := by
            have hw := hwords.1
            have hw' := hothers.1
            omega
          exact ⟨rfl, rfl⟩

/-- At most six words are determined by what they make of a remainder. -/
theorem words_eq_of_absorb_eq {r : BitVec 30} {words others : List Nat}
    (hlength : words.length = others.length) (hshort : words.length ≤ 6)
    (hwords : ∀ w ∈ words, w < 32) (hothers : ∀ w ∈ others, w < 32)
    (hsame : absorb r words = absorb r others) : words = others := by
  have hsplit := absorb_xor r 0#30 words
  have hsplit' := absorb_xor r 0#30 others
  rw [BitVec.xor_zero, hlength] at hsplit
  rw [BitVec.xor_zero, ← hsame, hsplit, BitVec.xor_right_inj] at hsplit'
  have hroom : (0#30).toNat < 32 ^ (6 - words.length) := Nat.pow_pos (by decide)
  have hvalue := toNat_absorb hshort hroom hwords
  have hvalue' := toNat_absorb (hlength ▸ hshort) (hlength ▸ hroom) hothers
  rw [hsplit', hvalue'] at hvalue
  exact (foldl_words_inj hlength hwords hothers hvalue.symm).2

/-- Sequences with the same remainder do not differ in at most six neighbouring words only. -/
theorem window_eq_of_absorb_eq {r : BitVec 30} {before words others after : List Nat}
    (hlength : words.length = others.length) (hshort : words.length ≤ 6)
    (hwords : ∀ w ∈ words, w < 32) (hothers : ∀ w ∈ others, w < 32)
    (hsame : absorb r (before ++ words ++ after) = absorb r (before ++ others ++ after)) :
    words = others := by
  simp only [absorb, List.foldl_append] at hsame
  exact words_eq_of_absorb_eq hlength hshort hwords hothers (absorb_injective after hsame)

/-! ## Fronts and bodies -/

theorem remainder_eq_of_isChecked {front : List Char} {words : List Nat}
    (hchecked : isChecked front words = true) : absorb 1#30 (expand front ++ words) = 1#30 :=
  of_decide_eq_true hchecked

/-- Words that are accepted behind the same front do not differ in six neighbouring words only. -/
theorem window_eq_of_isChecked {front : List Char} {before words others after : List Nat}
    (hlength : words.length = others.length) (hshort : words.length ≤ 6)
    (hwords : ∀ w ∈ words, w < 32) (hothers : ∀ w ∈ others, w < 32)
    (hchecked : isChecked front (before ++ words ++ after) = true)
    (hchecked' : isChecked front (before ++ others ++ after) = true) : words = others := by
  have hsame := (remainder_eq_of_isChecked hchecked).trans
    (remainder_eq_of_isChecked hchecked').symm
  simp only [← List.append_assoc] at hsame
  exact window_eq_of_absorb_eq hlength hshort hwords hothers hsame

/-- What a character of the front contributes: two values, which enclose what lies between them. -/
def reach (before after : List Char) (c : Char) : List Nat :=
  c.toNat / 32 ::
    (after.map (fun d => d.toNat / 32) ++ 0 :: before.map (fun d => d.toNat % 32) ++ [c.toNat % 32])

theorem expand_eq_reach (before after : List Char) (c : Char) :
    expand (before ++ c :: after) =
      before.map (fun d => d.toNat / 32) ++ reach before after c ++
        after.map (fun d => d.toNat % 32) := by
  simp [expand, reach]

theorem length_reach (before after : List Char) (c : Char) :
    (reach before after c).length = before.length + after.length + 3 := by
  simp only [reach, List.length_cons, List.length_append, List.length_map, List.length_nil]
  omega

theorem lt_of_mem_reach {before after : List Char} {c : Char} (hc : c.toNat < 0x80)
    (hafter : ∀ d ∈ after, d.toNat < 0x80) : ∀ w ∈ reach before after c, w < 32 := by
  have hhigh : ∀ d : Char, d.toNat < 0x80 → d.toNat / 32 < 32 := fun d hd => by omega
  have hlow : ∀ d : Char, d.toNat % 32 < 32 := fun d => Nat.mod_lt _ (by decide)
  simp only [reach, List.forall_mem_cons, List.forall_mem_append, List.forall_mem_map]
  exact ⟨hhigh c hc, ⟨fun d hd => hhigh d (hafter d hd), by decide, fun d _ => hlow d⟩, hlow c,
    List.forall_mem_nil _⟩

theorem reach_injective (before after : List Char) :
    Function.Injective (reach before after) := by
  intro c c' hsame
  obtain ⟨hhigh, hrest⟩ := List.cons.inj hsame
  have hlow : c.toNat % 32 = c'.toNat % 32 :=
    List.singleton_inj.mp (List.append_cancel_left hrest)
  apply Char.toNat_inj.mp
  omega

/-- Fronts that accept the same words do not differ in one ASCII character only. -/
theorem char_eq_of_isChecked (before after : List Char) {c c' : Char} {words : List Nat}
    (hfront : before.length + after.length = 2) (hc : c.toNat < 0x80) (hc' : c'.toNat < 0x80)
    (hafter : ∀ d ∈ after, d.toNat < 0x80)
    (hchecked : isChecked (before ++ c :: after) words = true)
    (hchecked' : isChecked (before ++ c' :: after) words = true) : c = c' := by
  have hsame := (remainder_eq_of_isChecked hchecked).trans
    (remainder_eq_of_isChecked hchecked').symm
  rw [expand_eq_reach, expand_eq_reach, List.append_assoc _ _ words,
    List.append_assoc _ _ words] at hsame
  have hlength : (reach before after c).length = (reach before after c').length := by
    rw [length_reach, length_reach]
  have hshort : (reach before after c).length ≤ 6 := by
    rw [length_reach]
    omega
  exact reach_injective before after (window_eq_of_absorb_eq hlength hshort
    (lt_of_mem_reach hc hafter) (lt_of_mem_reach hc' hafter) hsame)

/-- The characters of words determine them. -/
theorem words_eq_of_map_character {words others : List Nat} (hwords : ∀ w ∈ words, w < 32)
    (hothers : ∀ w ∈ others, w < 32) (hsame : words.map character = others.map character) :
    words = others := by
  have hread := mapM_word?_character hwords
  rw [hsame, mapM_word?_character hothers] at hread
  exact (Option.some.inj hread).symm

/-- Words that are accepted behind the same front, and whose characters differ in six neighbours
only, are the same. -/
theorem words_eq_of_isChecked {front : List Char} {words others : List Nat} {start : Nat}
    (hwords : ∀ w ∈ words, w < 32) (hothers : ∀ w ∈ others, w < 32)
    (hlength : words.length = others.length)
    (hsame : ∀ j, j < start ∨ start + 6 ≤ j →
      (words.map character)[j]? = (others.map character)[j]?)
    (hchecked : isChecked front words = true) (hchecked' : isChecked front others = true) :
    words = others := by
  have hparts : ∀ ws : List Nat,
      ws = ws.take start ++ (ws.drop start).take 6 ++ ws.drop (start + 6) := by
    intro ws
    rw [← List.drop_drop, List.append_assoc, List.take_append_drop, List.take_append_drop]
  obtain ⟨hbefore, hafter⟩ := window_split hsame
  rw [← List.map_take, ← List.map_take] at hbefore
  rw [← List.map_drop, ← List.map_drop] at hafter
  have hbefore' : words.take start = others.take start :=
    words_eq_of_map_character (fun w hw => hwords w (List.mem_of_mem_take hw))
      (fun w hw => hothers w (List.mem_of_mem_take hw)) hbefore
  have hafter' : words.drop (start + 6) = others.drop (start + 6) :=
    words_eq_of_map_character (fun w hw => hwords w (List.mem_of_mem_drop hw))
      (fun w hw => hothers w (List.mem_of_mem_drop hw)) hafter
  have hwindow : (words.drop start).take 6 = (others.drop start).take 6 := by
    rw [hparts words] at hchecked
    rw [hparts others, ← hbefore', ← hafter'] at hchecked'
    refine window_eq_of_isChecked ?_ (List.length_take_le _ _) ?_ ?_ hchecked hchecked'
    · simp only [List.length_take, List.length_drop, hlength]
    · exact fun w hw => hwords w (List.mem_of_mem_drop (List.mem_of_mem_take hw))
    · exact fun w hw => hothers w (List.mem_of_mem_drop (List.mem_of_mem_take hw))
  rw [hparts words, hbefore', hwindow, hafter', ← hparts others]

end Bech32

/-! ## Damage -/

/-- Two texts have the same length, and differ in characters from a position on only, a limited
number of them. -/
def DifferWithin (start width : Nat) (s t : String) : Prop :=
  s.toList.length = t.toList.length ∧
    ∀ j, j < start ∨ start + width ≤ j → s.toList[j]? = t.toList[j]?

theorem DifferWithin.mono {start width wider : Nat} {s t : String}
    (hdiffer : DifferWithin start width s t) (hle : width ≤ wider) :
    DifferWithin start wider s t :=
  ⟨hdiffer.1, fun j hj => hdiffer.2 j (by omega)⟩

namespace AddressFrame

/-- Two texts that are taken apart do not differ in six neighbouring characters of the body only. -/
theorem eq_of_differ_body {s t : String} {frame frame' : AddressFrame} {i : Nat}
    (hs : ofText s = .ok frame) (ht : ofText t = .ok frame') (hi : frontLength ≤ i)
    (hdiffer : DifferWithin i 6 s t) : s = t := by
  obtain ⟨a, b, words, hchars, -, hwords, -, hchecked, -⟩ := exists_words_of_ofText hs
  obtain ⟨a', b', others, hchars', -, hothers, -, hchecked', -⟩ := exists_words_of_ofText ht
  obtain ⟨start, rfl⟩ := Nat.exists_eq_add_of_le' hi
  obtain ⟨hlength, hsame⟩ := hdiffer
  rw [hchars, hchars'] at hlength hsame
  have ha : a = a' := Option.some.inj (hsame 0 (Or.inl (Nat.succ_pos _)))
  have hb : b = b' := Option.some.inj (hsame 1 (Or.inl (Nat.succ_lt_succ (Nat.succ_pos _))))
  have hkind : frame.kind = frame'.kind :=
    Option.some.inj (hsame 2 (Or.inl (Nat.succ_lt_succ (Nat.succ_lt_succ (Nat.succ_pos _)))))
  subst ha hb
  rw [← hkind] at hchecked' hchars'
  have hbody : ∀ j, j < start ∨ start + 6 ≤ j →
      (words.map Bech32.character)[j]? = (others.map Bech32.character)[j]? := by
    intro j hj
    exact hsame (j + 3) (by simp only [frontLength]; omega)
  have hsameLength : words.length = others.length := by
    simpa using hlength
  have hsameWords : words = others :=
    Bech32.words_eq_of_isChecked hwords hothers hsameLength hbody hchecked hchecked'
  rw [← String.toList_inj, hchars, hchars', hsameWords]

/-- Two texts that are taken apart do not differ in one ASCII character of the front only. -/
theorem eq_of_differ_front {s t : String} {frame frame' : AddressFrame} {i : Nat}
    (hs : ofText s = .ok frame) (ht : ofText t = .ok frame') (hascii : Text.IsAscii s)
    (hascii' : Text.IsAscii t) (hi : i < frontLength) (hdiffer : DifferWithin i 1 s t) : s = t := by
  obtain ⟨a, b, words, hchars, -, hwords, -, hchecked, -⟩ := exists_words_of_ofText hs
  obtain ⟨a', b', others, hchars', -, hothers, -, hchecked', -⟩ := exists_words_of_ofText ht
  obtain ⟨-, hsame⟩ := hdiffer
  rw [hchars, hchars'] at hsame
  have hbody : words = others := by
    refine Bech32.words_eq_of_map_character hwords hothers (List.ext_getElem? fun j => ?_)
    refine hsame (j + 3) (Or.inr ?_)
    simp only [frontLength] at hi
    omega
  subst hbody
  rw [Text.IsAscii, hchars, List.forall_mem_cons, List.forall_mem_cons, List.forall_mem_cons]
    at hascii
  rw [Text.IsAscii, hchars', List.forall_mem_cons, List.forall_mem_cons, List.forall_mem_cons]
    at hascii'
  obtain ⟨ha, hb, hkind, -⟩ := hascii
  obtain ⟨ha', hb', hkind', -⟩ := hascii'
  rw [← String.toList_inj, hchars, hchars']
  obtain rfl | rfl | rfl : i = 0 ∨ i = 1 ∨ i = 2 := by
    simp only [frontLength] at hi
    omega
  · have hsecond : b = b' := Option.some.inj (hsame 1 (by decide))
    have hthird : frame.kind = frame'.kind := Option.some.inj (hsame 2 (by decide))
    rw [← hsecond, ← hthird] at hchecked' ⊢
    have hafter : ∀ d ∈ [b, frame.kind], d.toNat < 0x80 := by
      simp [hb, hkind]
    rw [Bech32.char_eq_of_isChecked [] _ rfl ha ha' hafter hchecked hchecked']
  · have hfirst : a = a' := Option.some.inj (hsame 0 (by decide))
    have hthird : frame.kind = frame'.kind := Option.some.inj (hsame 2 (by decide))
    rw [← hfirst, ← hthird] at hchecked' ⊢
    have hafter : ∀ d ∈ [frame.kind], d.toNat < 0x80 := by
      simp [hkind]
    rw [Bech32.char_eq_of_isChecked [a] _ rfl hb hb' hafter hchecked hchecked']
  · have hfirst : a = a' := Option.some.inj (hsame 0 (by decide))
    have hsecond : b = b' := Option.some.inj (hsame 1 (by decide))
    rw [← hfirst, ← hsecond] at hchecked' ⊢
    rw [Bech32.char_eq_of_isChecked [a, b] [] rfl hkind hkind' (by simp) hchecked hchecked']

/-- Texts that are not taken apart are malformed. -/
theorem exists_flaw_of_ofText {s : String} {fault : Fault} (hread : ofText s = .error fault) :
    ∃ flaw, fault = .malformed flaw := by
  unfold ofText at hread
  simp only at hread
  split at hread
  next =>
    split at hread
    next =>
      cases hread
      exact ⟨_, rfl⟩
    next =>
      split at hread
      next a b kind body _ _ _ _ =>
        cases hbody : body.mapM Bech32.word? with
        | none =>
            simp only [hbody] at hread
            cases hread
            exact ⟨_, rfl⟩
        | some words =>
            simp only [hbody] at hread
            split at hread
            next =>
              cases hpayload : Bech32.ofWords?
                  (words.take (words.length - Bech32.checksumLength)) with
              | none =>
                  simp only [hpayload] at hread
                  cases hread
                  exact ⟨_, rfl⟩
              | some payload =>
                  simp only [hpayload] at hread
                  cases hread
            next =>
              cases hread
              exact ⟨_, rfl⟩
      next =>
        cases hread
        exact ⟨_, rfl⟩
  next =>
    cases hread
    exact ⟨_, rfl⟩

/-- What is commonly done to a text by mistake. -/
inductive Damage (s t : String) : Prop where
  /-- One character is replaced. -/
  | substitution (i : Nat) (c : Char) (ht : t.toList = s.toList.set i c)
  /-- Two neighbouring characters of the body change places. -/
  | swap (i : Nat) (x y : Char) (hi : frontLength ≤ i) (hx : s.toList[i]? = some x)
      (hy : s.toList[i + 1]? = some y) (ht : t.toList = (s.toList.set i y).set (i + 1) x)
  /-- Up to six neighbouring characters of the body are replaced. -/
  | burst (i width : Nat) (hi : frontLength ≤ i) (hwidth : width ≤ 6)
      (hdiffer : DifferWithin i width s t)

theorem differWithin_set {s t : String} {i : Nat} {c : Char} (ht : t.toList = s.toList.set i c) :
    DifferWithin i 1 s t := by
  refine ⟨by rw [ht, List.length_set], fun j hj => ?_⟩
  rw [ht, List.getElem?_set_ne (by omega)]

theorem differWithin_set_set {s t : String} {i : Nat} {x y : Char}
    (ht : t.toList = (s.toList.set i y).set (i + 1) x) : DifferWithin i 2 s t := by
  refine ⟨by rw [ht, List.length_set, List.length_set], fun j hj => ?_⟩
  rw [ht, List.getElem?_set_ne (by omega), List.getElem?_set_ne (by omega)]

/-- Damage is confined to one character of the front or to six neighbours in the body. -/
theorem Damage.exists_differWithin {s t : String} (hdamage : Damage s t) :
    ∃ i, i < frontLength ∧ DifferWithin i 1 s t ∨ frontLength ≤ i ∧ DifferWithin i 6 s t := by
  cases hdamage with
  | substitution i c ht =>
      have hdiffer := differWithin_set ht
      rcases Nat.lt_or_ge i frontLength with hi | hi
      · exact ⟨i, Or.inl ⟨hi, hdiffer⟩⟩
      · exact ⟨i, Or.inr ⟨hi, hdiffer.mono (by decide)⟩⟩
  | swap i x y hi hx hy ht =>
      exact ⟨i, Or.inr ⟨hi, (differWithin_set_set ht).mono (by decide)⟩⟩
  | burst i width hi hwidth hdiffer => exact ⟨i, Or.inr ⟨hi, hdiffer.mono hwidth⟩⟩

/-- Two ASCII texts of the same length that are both taken apart do not differ in one character of
the front only, nor in six neighbouring characters of the body only.  So every damaged text of an
address is refused. -/
theorem damage_detected :
    (∀ (s t : String) (frame frame' : AddressFrame), Text.IsAscii s → Text.IsAscii t → s ≠ t →
      ofText s = .ok frame → ofText t = .ok frame' →
        (∀ i < frontLength, ¬DifferWithin i 1 s t) ∧
        ∀ i, frontLength ≤ i → ¬DifferWithin i 6 s t) ∧
    ∀ (s t : String) (frame : AddressFrame), Text.IsAscii s → Text.IsAscii t → s ≠ t →
      ofText s = .ok frame → Damage s t → ∃ flaw, ofText t = .error (.malformed flaw) := by
  constructor
  · intro s t frame frame' hascii hascii' hne hs ht
    constructor
    · intro i hi hdiffer
      exact hne (eq_of_differ_front hs ht hascii hascii' hi hdiffer)
    · intro i hi hdiffer
      exact hne (eq_of_differ_body hs ht hi hdiffer)
  · intro s t frame hascii hascii' hne hs hdamage
    cases ht : ofText t with
    | error fault =>
        obtain ⟨flaw, rfl⟩ := exists_flaw_of_ofText ht
        exact ⟨flaw, rfl⟩
    | ok frame' =>
        obtain ⟨i, ⟨hi, hdiffer⟩ | ⟨hi, hdiffer⟩⟩ := hdamage.exists_differWithin
        · exact absurd (eq_of_differ_front hs ht hascii hascii' hi hdiffer) hne
        · exact absurd (eq_of_differ_body hs ht hi hdiffer) hne

/-- Two addresses on one network, of which the payloads differ in the last byte, differ in more than
six characters in a row; with two neighbouring characters swapped, the first one is refused. -/
theorem damage_detected_sevens :
    ((∀ i < frontLength, ¬DifferWithin i 1 "tccqqrswpc8qurswpc8qurswpc8qurswpc8qulxldvg"
        "tccqqrswpc8qurswpc8qurswpc8qurswpc8pq5y79r6") ∧
      ∀ i, frontLength ≤ i → ¬DifferWithin i 6 "tccqqrswpc8qurswpc8qurswpc8qurswpc8qulxldvg"
        "tccqqrswpc8qurswpc8qurswpc8qurswpc8pq5y79r6") ∧
    ∃ flaw, ofText "tccqqrswpc8qurswpc8qurswpc8qurswpc8qulxldgv" = .error (.malformed flaw) := by
  have hother : ofText "tccqqrswpc8qurswpc8qurswpc8qurswpc8pq5y79r6" =
      .ok ⟨NetworkId.standard.toNetwork, 'c', sevens 8⟩ := by
    decide +kernel
  obtain ⟨hapart, hrefused⟩ := damage_detected
  constructor
  · exact hapart _ _ _ _ (by decide) (by decide) (by decide) ofText_sevens hother
  · refine hrefused _ _ _ (by decide) (by decide) (by decide) ofText_sevens ?_
    exact .swap 41 'v' 'g' (by decide) (by decide) (by decide) (by decide)

end AddressFrame

end ShardLedger
