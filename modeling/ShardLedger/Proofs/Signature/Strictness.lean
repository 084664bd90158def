import ShardLedger.Proofs.Signature.Codec
import ShardLedger.Parcel.Signed

/-!
# What counts as the text of a signature

The length of a signature text is checked on its characters, and its numbers are taken from the
bytes that the characters spell.  Without blanks the two agree: the text consists of digits, and
is the written form of what is read, up to the case of the digits.  Blanks take the place of
digits, so that a text with blanks may be accepted although it spells too few bytes.
-/

namespace ShardLedger

namespace Signature

/-- What a text holds behind its marker. -/
def body (text : String) : List Char :=
  Hex.dropMarker text.toList

/-- A text of digits that has a given length. -/
def IsStrict (size : Nat) (text : String) : Prop :=
  (body text).length = 2 * size ∧ ∀ c ∈ body text, (Hex.value? c).isSome = true

/-- A text without blanks. -/
def IsDense (text : String) : Prop :=
  ∀ c ∈ body text, Hex.isBlank c = false

section

variable {width width' : Nat} {text : String}

/-- The bytes that a text spells, against the size it should have: they are too few when there are
blanks. -/
structure Spelled (size : Nat) (text : String) (raw : Bytes) : Prop where
  spells : Hex.Spells (body text) raw
  length_le : raw.length ≤ size
  length_eq_iff : raw.length = size ↔ IsDense text

theorem spelled_of_spells {size : Nat} {raw : Bytes} (hlength : (body text).length = 2 * size)
    (hspells : Hex.Spells (body text) raw) : Spelled size text raw := by
  have hcount := hspells.length_eq
  have hdense : (body text).countP Hex.isBlank = 0 ↔ IsDense text := by
    simp only [List.countP_eq_zero, IsDense, Bool.not_eq_true]
  refine ⟨hspells, by omega, ?_⟩
  rw [← hdense]
  omega

theorem parseWidths_of_length_ne (hlength : (body text).length ≠ 2 * (2 * width + width')) :
    parseWidths width width' (.text text) =
      refuse (.signatureLength (2 * (width : Int) + width') (body text).length) := by
  have hwrong : ((body text).length : Int) ≠ (2 * (width : Int) + width') * 2 := by omega
  rw [parseWidths, ← body, if_pos hwrong]

theorem parseWidths_of_decode_none (hlength : (body text).length = 2 * (2 * width + width'))
    (hdecode : Hex.decode (body text) = none) :
    parseWidths width width' (.text text) = refuse (.signatureNotHex text) := by
  have hright : ¬((body text).length : Int) ≠ (2 * (width : Int) + width') * 2 := by omega
  rw [parseWidths, ← body, if_neg hright, hdecode]

/-- What is read from a text is made of the bytes it spells. -/
theorem parseWidths_eq_ok_iff {signature : Signature} :
    parseWidths width width' (.text text) = .ok signature ↔
      (body text).length = 2 * (2 * width + width') ∧
        ∃ raw, Spelled (2 * width + width') text raw ∧ signature = ofParts width raw := by
  constructor
  · intro hread
    by_cases hlength : (body text).length = 2 * (2 * width + width')
    · cases hdecode : Hex.decode (body text) with
      | none =>
          rw [parseWidths_of_decode_none hlength hdecode] at hread
          cases hread
      | some raw =>
          rw [parseWidths_of_decode hlength hdecode, Except.ok.injEq] at hread
          have hraw := spelled_of_spells hlength (Hex.decode_eq_some_iff.mp hdecode)
          exact ⟨hlength, raw, hraw, hread.symm⟩
    · rw [parseWidths_of_length_ne hlength] at hread
      cases hread
  · intro hspelled
    obtain ⟨hlength, raw, hraw, rfl⟩ := hspelled
    exact parseWidths_of_decode hlength (Hex.decode_eq_some_iff.mpr hraw.spells)

/-- A text is refused for its length, or for spelling nothing. -/
theorem parseWidths_error {fault : Fault}
    (hfault : parseWidths width width' (.text text) = .error fault) :
    fault = .malformed (.signatureLength (2 * (width : Int) + width') (body text).length) ∨
      fault = .malformed (.signatureNotHex text) := by
  by_cases hlength : (body text).length = 2 * (2 * width + width')
  · cases hdecode : Hex.decode (body text) with
    | none =>
        rw [parseWidths_of_decode_none hlength hdecode] at hfault
        cases hfault
        exact Or.inr rfl
    | some raw =>
        rw [parseWidths_of_decode hlength hdecode] at hfault
        cases hfault
  · rw [parseWidths_of_length_ne hlength] at hfault
    cases hfault
    exact Or.inl rfl

/-- Nothing but text is read. -/
theorem exists_text_of_parse {value : Datum} {signature : Signature}
    (hread : parse value = .ok signature) : ∃ text, value = .text text := by
  cases value with
  | text text => exact ⟨text, rfl⟩
  | _ => cases hread

/-- The texts of digits are the spellings without blanks. -/
theorem isStrict_iff {size : Nat} :
    IsStrict size text ↔
      IsDense text ∧ (body text).length = 2 * size ∧ ∃ raw, Hex.Spells (body text) raw := by
  constructor
  · intro hstrict
    obtain ⟨hlength, hdigits⟩ := hstrict
    refine ⟨?_, hlength, Hex.exists_spells_of_digits hlength hdigits⟩
    intro c hmem
    obtain ⟨n, hvalue⟩ := Option.isSome_iff_exists.mp (hdigits c hmem)
    exact (Hex.digit_of_value? hvalue).2.2
  · intro hspelled
    obtain ⟨hdense, hlength, raw, hspells⟩ := hspelled
    exact ⟨hlength, hspells.isSome_value? hdense⟩

/-- The texts of digits are those among the accepted ones that have no blanks. -/
theorem isStrict_iff_parse :
    IsStrict (2 * width + width') text ↔
      IsDense text ∧ ∃ signature, parseWidths width width' (.text text) = .ok signature := by
  rw [isStrict_iff]
  simp only [parseWidths_eq_ok_iff]
  constructor
  · intro hspelled
    obtain ⟨hdense, hlength, raw, hspells⟩ := hspelled
    exact ⟨hdense, _, hlength, raw, spelled_of_spells hlength hspells, rfl⟩
  · intro haccepted
    obtain ⟨hdense, _, hlength, raw, hraw, -⟩ := haccepted
    exact ⟨hdense, hlength, raw, hraw.spells⟩

/-- What was read is written as the text in lower case only if the text has no blanks. -/
theorem textOf_eq_lower_iff (hwidth : 0 < width) (hwidth' : 0 < width') {signature : Signature}
    (hread : parseWidths width width' (.text text) = .ok signature) :
    textOf width width' signature =
        .ok ("0x" ++ String.ofList ((body text).map Char.toLower)) ↔ IsDense text := by
  obtain ⟨hlength, raw, hraw, rfl⟩ := parseWidths_eq_ok_iff.mp hread
  constructor
  · intro htext
    obtain ⟨r, s, v, hparts, hr, hs, hv⟩ := exists_natural_of_textOf htext
    rw [hparts, textOf_natural hr hs hv hwidth hwidth', Except.ok.injEq, String.append_right_inj,
      String.ofList_inj] at htext
    -- The characters of the written form are digits, and no digit is a blank.
    intro c hmem
    have hlower : c.toLower ∈ (body text).map Char.toLower := List.mem_map_of_mem hmem
    rw [← htext] at hlower
    obtain ⟨n, hvalue⟩ := Option.isSome_iff_exists.mp (Hex.isSome_value?_of_toLower_mem hlower)
    exact (Hex.digit_of_value? hvalue).2.2
  · intro hdense
    rw [textOf_ofParts (hraw.length_eq_iff.mpr hdense) hwidth hwidth',
      hraw.spells.map_toLower_eq hdense]

end

end Signature

/-! ## Signed parcels -/

namespace SignedParcel

theorem exists_sig_of_ofDatum {d : Datum} {signed : SignedParcel} (hread : ofDatum d = .ok signed) :
    ∃ text, d.optional "sig" = .ok (some (.text text)) ∧
      Signature.parse (.text text) = .ok signed.signature := by
  obtain ⟨sig?, hsig, hread⟩ := bind_eq_ok_iff.mp hread
  cases sig? with
  | none => cases hread
  | some value =>
      simp only [bind_eq_ok_iff, pure_eq_ok, Except.ok.injEq] at hread
      obtain ⟨signature, hparse, _, -, unsigned, -, _, -, _, -, _, -, _, -, _, -, rfl⟩ := hread
      obtain ⟨text, rfl⟩ := Signature.exists_text_of_parse hparse
      exact ⟨text, hsig, hparse⟩

/-- A signature that is refused makes the parcel refused for the same reason. -/
theorem ofDatum_of_parse_error {d value : Datum} {fault : Fault}
    (hsig : d.optional "sig" = .ok (some value)) (hparse : Signature.parse value = .error fault) :
    ofDatum d = .error fault := by
  rw [ofDatum, hsig, ok_bind]
  simp only [hparse, error_bind]

end SignedParcel

namespace Signature

/-- Texts of signatures are read strictly, except for blanks.  A text is read when it has the right
length and spells bytes; the texts of digits are those of them without blanks.  What is read is
written as the text in lower case just if there are no blanks, since with blanks the text spells too
few bytes.  Any other text is malformed.  The signature of a parcel is read from its text field, or
the parcel is refused. -/
theorem strict_unless_blank {width width' : Nat} (hwidth : 0 < width) (hwidth' : 0 < width') :
    (∀ text,
      (IsStrict (2 * width + width') text ↔
        IsDense text ∧ ∃ signature, parseWidths width width' (.text text) = .ok signature) ∧
      (∀ signature, parseWidths width width' (.text text) = .ok signature ↔
        (body text).length = 2 * (2 * width + width') ∧
          ∃ raw, Spelled (2 * width + width') text raw ∧ signature = ofParts width raw) ∧
      (∀ signature, parseWidths width width' (.text text) = .ok signature →
        (textOf width width' signature =
          .ok ("0x" ++ String.ofList ((body text).map Char.toLower)) ↔ IsDense text)) ∧
      ∀ fault, parseWidths width width' (.text text) = .error fault →
        fault = .malformed (.signatureLength (2 * (width : Int) + width') (body text).length) ∨
          fault = .malformed (.signatureNotHex text)) ∧
    ∀ d,
      (∀ signed, SignedParcel.ofDatum d = .ok signed →
        ∃ text raw, d.optional "sig" = .ok (some (.text text)) ∧ Spelled 65 text raw ∧
          signed.signature = ofParts 32 raw) ∧
      ∀ value fault, d.optional "sig" = .ok (some value) → parse value = .error fault →
        SignedParcel.ofDatum d = .error fault := by
  constructor
  · intro text
    exact ⟨isStrict_iff_parse, fun signature => parseWidths_eq_ok_iff,
      fun signature => textOf_eq_lower_iff hwidth hwidth', fun fault => parseWidths_error⟩
  · intro d
    refine ⟨?_, fun value fault => SignedParcel.ofDatum_of_parse_error⟩
    intro signed hread
    obtain ⟨text, hsig, hparse⟩ := SignedParcel.exists_sig_of_ofDatum hread
    obtain ⟨-, raw, hraw, hsignature⟩ := parseWidths_eq_ok_iff.mp hparse
    exact ⟨text, raw, hsig, hraw, hsignature⟩

/-- Digits in capitals are read, and written in lower case. -/
theorem strict_unless_blank_capitals :
    (0 < 1 ∧ 0 < 1) ∧ IsDense "0X0A0B00" ∧
      ∃ signature, parseWidths (1 : Nat) (1 : Nat) (.text "0X0A0B00") = .ok signature ∧
        textOf (1 : Nat) (1 : Nat) signature = .ok "0x0a0b00" := by
  obtain ⟨htexts, -⟩ := @strict_unless_blank 1 1 (by decide) (by decide)
  obtain ⟨hstrict, -, hlower, -⟩ := htexts "0X0A0B00"
  have hbody : body "0X0A0B00" = ['0', 'A', '0', 'B', '0', '0'] := by
    simp [body, Hex.dropMarker]
  have hdigits : IsStrict (2 * 1 + 1) "0X0A0B00" := by
    rw [IsStrict, hbody]
    exact ⟨rfl, List.all_eq_true.mp (by decide)⟩
  obtain ⟨hdense, signature, hread⟩ := hstrict.mp hdigits
  exact ⟨by decide, hdense, signature, hread, (hlower signature hread).mpr hdense⟩

/-- The digits of two scalars, and two blanks in place of the digits of the recovery id. -/
def blankEnded : String :=
  "0x" ++ String.ofList (Hex.encode (joined 32 0 1 1 0) ++ [' '] ++ [' '])

/-- A text is read though it does not consist of digits. -/
theorem parse_blankEnded : parse (.text blankEnded) = .ok ⟨1, 1, 0⟩ ∧ ¬IsStrict 65 blankEnded := by
  have hbody : body blankEnded = Hex.encode (joined 32 0 1 1 0) ++ [' '] ++ [' '] :=
    Hex.dropMarker_marked _
  constructor
  · have hdigits := Hex.decode_eq_some_iff.mp (Hex.decode_encode (joined 32 0 1 1 0))
    have hblanks := (hdigits.append_blank (c := ' ') rfl).append_blank (c := ' ') rfl
    have hparts : ofParts 32 (joined 32 0 1 1 0) = ⟨1, 1, 0⟩ :=
      ofParts_joined (by decide) (by decide) (by decide)
    rw [← hparts]
    apply parseWidths_of_decode
    · rw [← body, hbody, List.length_append, List.length_append, Hex.length_encode, length_joined]
      rfl
    · rw [← body, hbody]
      exact Hex.decode_eq_some_iff.mpr hblanks
  · intro hstrict
    have hblank : ' ' ∈ body blankEnded := by
      rw [hbody]
      exact List.mem_append_right _ List.mem_cons_self
    exact absurd (hstrict.2 ' ' hblank) (by decide)

end Signature

end ShardLedger
