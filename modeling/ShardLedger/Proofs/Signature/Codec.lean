import ShardLedger.Proofs.Bytes.Spelling
import ShardLedger.Proofs.Document.Field
import ShardLedger.Proofs.Signature.Written

/-!
# Signatures are written without loss

A signature has a text form exactly when its numbers fit the widths.  The text has a fixed
length and is read back from its digits of either case, behind a marker or not.  The byte
form holds the same digits: reading one of the forms and writing the other one gives the
digits of the bytes.
-/

namespace ShardLedger

namespace Signature

/-! ## Which signatures have a text form -/

theorem exists_natural_of_padHex {value : Int} {width : Nat} {digits : List Char}
    (hdigits : padHex value width = .ok digits) : ∃ n : Nat, value = n ∧ n < 256 ^ width := by
  obtain ⟨n, hfitting, -⟩ := bind_eq_ok_iff.mp hdigits
  exact ⟨n, fitting_eq_ok_iff.mp hfitting⟩

theorem exists_natural_of_textOf {width width' : Nat} {signature : Signature} {text : String}
    (htext : textOf width width' signature = .ok text) :
    ∃ r s v : Nat, signature = ⟨r, s, v⟩ ∧ r < 256 ^ width ∧ s < 256 ^ width ∧
      v < 256 ^ width' := by
  obtain ⟨_, hfirst, htext⟩ := bind_eq_ok_iff.mp htext
  obtain ⟨_, hsecond, htext⟩ := bind_eq_ok_iff.mp htext
  obtain ⟨_, hlast, -⟩ := bind_eq_ok_iff.mp htext
  obtain ⟨r, hr, hr'⟩ := exists_natural_of_padHex hfirst
  obtain ⟨s, hs, hs'⟩ := exists_natural_of_padHex hsecond
  obtain ⟨v, hv, hv'⟩ := exists_natural_of_padHex hlast
  obtain ⟨_, _, _⟩ := signature
  exact ⟨r, s, v, (mk.injEq ..).mpr ⟨hr, hs, hv⟩, hr', hs', hv'⟩

/-- A number fits into a width: it is written with that many bytes. -/
def FitsIn (width : Nat) (value : Int) : Prop :=
  0 ≤ value ∧ value < 256 ^ width

theorem fitsIn_iff {width : Nat} {value : Int} :
    FitsIn width value ↔ ∃ n : Nat, value = n ∧ n < 256 ^ width := by
  have hpower : ((256 ^ width : Nat) : Int) = 256 ^ width := Int.natCast_pow 256 width
  rw [FitsIn, ← hpower]
  constructor
  · rintro ⟨hnonneg, hlt⟩
    obtain ⟨n, rfl⟩ := Int.eq_ofNat_of_zero_le hnonneg
    exact ⟨n, rfl, Int.ofNat_lt.mp hlt⟩
  · rintro ⟨n, rfl, hlt⟩
    exact ⟨Int.natCast_nonneg n, Int.ofNat_lt.mpr hlt⟩

theorem exists_textOf_iff {width width' : Nat} (hwidth : 0 < width) (hwidth' : 0 < width')
    {signature : Signature} :
    (∃ text, textOf width width' signature = .ok text) ↔
      FitsIn width signature.r ∧ FitsIn width signature.s ∧ FitsIn width' signature.v := by
  simp only [fitsIn_iff]
  constructor
  · rintro ⟨text, htext⟩
    obtain ⟨r, s, v, rfl, hr, hs, hv⟩ := exists_natural_of_textOf htext
    exact ⟨⟨r, rfl, hr⟩, ⟨s, rfl, hs⟩, ⟨v, rfl, hv⟩⟩
  · obtain ⟨r, s, v⟩ := signature
    rintro ⟨⟨r, rfl, hr⟩, ⟨s, rfl, hs⟩, ⟨v, rfl, hv⟩⟩
    exact ⟨_, textOf_natural hr hs hv hwidth hwidth'⟩

/-! ## Reading back in either case -/

/-- Digits of either case are read behind either marker, and without one. -/
theorem parseWidths_of_map_toLower {width width' : Nat} {raw : Bytes} {cased : List Char}
    (hlength : raw.length = 2 * width + width') (hcased : cased.map Char.toLower = Hex.encode raw)
    {marker : String} (hmarker : marker ∈ Hex.markers) :
    parseWidths width width' (.text (marker ++ String.ofList cased)) =
      .ok (ofParts width raw) := by
  have hdecode : Hex.decode cased = some raw := by
    rw [← Hex.decode_map_toLower, hcased, Hex.decode_encode]
  have hdigits : ∀ c ∈ cased, (Hex.value? c).isSome = true := by
    intro c hmem
    have hlower : c.toLower ∈ cased.map Char.toLower := List.mem_map_of_mem hmem
    rw [hcased] at hlower
    exact Hex.isSome_value?_of_toLower_mem hlower
  have hbody := Hex.dropMarker_append hmarker hdigits
  apply parseWidths_of_decode
  · rw [hbody, ← List.length_map (f := Char.toLower), hcased, Hex.length_encode, hlength]
  · rw [hbody, hdecode]

/-! ## One signature behind both forms -/

section

variable {width width' : Nat} {raw : Bytes} (hlength : raw.length = 2 * width + width')
include hlength

theorem length_parts : (raw.take width).length = width ∧
    ((raw.drop width).take width).length = width ∧ (raw.drop (2 * width)).length = width' := by
  simp only [List.length_take, List.length_drop]
  omega

/-- The numbers of the parts are written as the parts again. -/
theorem joined_toNat : joined width width' (BigEndian.toNat (raw.take width))
      (BigEndian.toNat ((raw.drop width).take width)) (BigEndian.toNat (raw.drop (2 * width))) =
      raw := by
  obtain ⟨hfirst, hsecond, hlast⟩ := length_parts hlength
  have hrest : (raw.drop width).take width ++ raw.drop (2 * width) = raw.drop width := by
    rw [Nat.two_mul, ← List.drop_drop, List.take_append_drop]
  rw [joined, BigEndian.fixed_toNat hfirst, BigEndian.fixed_toNat hsecond,
    BigEndian.fixed_toNat hlast, List.append_assoc, hrest, List.take_append_drop]

theorem toNat_parts_lt : BigEndian.toNat (raw.take width) < 256 ^ width ∧
    BigEndian.toNat ((raw.drop width).take width) < 256 ^ width ∧
    BigEndian.toNat (raw.drop (2 * width)) < 256 ^ width' := by
  obtain ⟨hfirst, hsecond, hlast⟩ := length_parts hlength
  have hbound := fun (b : Bytes) (n : Nat) (hb : b.length = n) => hb ▸ BigEndian.toNat_lt b
  exact ⟨hbound _ _ hfirst, hbound _ _ hsecond, hbound _ _ hlast⟩

/-- The signature made of the parts of a byte string has the digits of the bytes for its text. -/
theorem textOf_ofParts (hwidth : 0 < width) (hwidth' : 0 < width') :
    textOf width width' (ofParts width raw) = .ok ("0x" ++ String.ofList (Hex.encode raw)) := by
  obtain ⟨hr, hs, hv⟩ := toNat_parts_lt hlength
  rw [ofParts, textOf_natural hr hs hv hwidth hwidth', joined_toNat hlength]

end

theorem toBytes_ofFixedBytes (b : FixedBytes 65) : (ofFixedBytes b).toBytes = .ok b := by
  have hlength : b.bytes.length = 2 * 32 + 1 := b.length_bytes
  obtain ⟨hr, hs, hv⟩ := toNat_parts_lt hlength
  have hjoined := joined_toNat hlength
  rw [ofFixedBytes, toBytes_natural hr hs hv, Except.ok.injEq]
  exact FixedBytes.ext hjoined

theorem ofBytes_bytes (b : FixedBytes 65) : ofBytes b.bytes = .ok (ofFixedBytes b) := by
  rw [ofBytes, Datum.sized_bytes, ok_bind, pure_eq_ok]

theorem padHex_eq_map (value : Int) {width : Nat} (hwidth : 0 < width) :
    padHex value width =
      (fitting value width).map fun n => Hex.encode (BigEndian.fixed width n) := by
  cases hfitting : fitting value width with
  | error fault =>
      rw [padHex, hfitting, error_bind]
      rfl
  | ok n =>
      obtain ⟨rfl, hn⟩ := fitting_eq_ok_iff.mp hfitting
      rw [padHex_natural hwidth hn, map_ok]

/-- Writing either form runs into the same faults, and the text shows the bytes. -/
theorem toText_eq_map_toBytes (signature : Signature) :
    signature.toText = signature.toBytes.map fun b => Hex.shown b.bytes := by
  rw [toText, textOf, toBytes, padHex_eq_map _ (by decide), padHex_eq_map _ (by decide),
    padHex_eq_map _ (by decide)]
  cases fitting signature.r scalarWidth with
  | error fault => rfl
  | ok r =>
      cases fitting signature.s scalarWidth with
      | error fault => rfl
      | ok s =>
          cases fitting signature.v recoveryIdWidth with
          | error fault => rfl
          | ok v =>
              simp only [map_ok, ok_bind, pure_eq_ok, Hex.shown, Hex.text, Hex.encode_append]
              rfl

/-! ## Both forms are lossless -/

/-- What a text form promises: its length is fixed, it is read back as the signature, and so are its
digits in either case, behind either marker and without one. -/
structure ReadsBack (width width' : Nat) (signature : Signature) (text : String) : Prop where
  length_eq : text.length = 2 + 2 * (2 * width + width')
  parse_eq : parseWidths width width' (.text text) = .ok signature
  recased : ∃ digits, text = "0x" ++ String.ofList digits ∧
    (digits.map Char.toUpper).map Char.toLower = digits ∧
    ∀ cased, cased.map Char.toLower = digits → ∀ marker ∈ Hex.markers,
      parseWidths width width' (.text (marker ++ String.ofList cased)) = .ok signature

theorem readsBack_of_textOf {width width' : Nat} (hwidth : 0 < width) (hwidth' : 0 < width')
    {signature : Signature} {text : String} (htext : textOf width width' signature = .ok text) :
    ReadsBack width width' signature text := by
  obtain ⟨r, s, v, rfl, hr, hs, hv⟩ := exists_natural_of_textOf htext
  rw [textOf_natural hr hs hv hwidth hwidth', Except.ok.injEq] at htext
  subst htext
  have hlength := length_joined width width' r s v
  have hrecased : ∀ cased : List Char,
      cased.map Char.toLower = Hex.encode (joined width width' r s v) → ∀ marker ∈ Hex.markers,
        parseWidths width width' (.text (marker ++ String.ofList cased)) = .ok ⟨r, s, v⟩ := by
    intro cased hcased marker hmarker
    rw [parseWidths_of_map_toLower hlength hcased hmarker, ofParts_joined hr hs hv]
  refine ⟨?_, ?_, _, rfl, Hex.map_toLower_map_toUpper_encode _, hrecased⟩
  · rw [Hex.length_marked, Hex.length_encode, hlength]
  · exact hrecased _ (Hex.map_toLower_encode _) "0x" (by decide)

/-- Written signatures lose nothing.  In every pair of widths, the text form exists exactly when the
numbers fit, and reads back.  Every byte string of the right size is a byte form, signatures that
fit read back from both forms, and the two forms hold the same bytes. -/
theorem codecs_lossless {width width' : Nat} (hwidth : 0 < width) (hwidth' : 0 < width') :
    (∀ signature : Signature,
      ((∃ text, textOf width width' signature = .ok text) ↔
        FitsIn width signature.r ∧ FitsIn width signature.s ∧ FitsIn width' signature.v) ∧
      ∀ text, textOf width width' signature = .ok text →
        ReadsBack width width' signature text) ∧
    (∀ bytes : FixedBytes 65, ∃ signature, ofBytes bytes.bytes = .ok signature ∧
      signature.toBytes = .ok bytes ∧ parse (.text (Hex.shown bytes.bytes)) = .ok signature) ∧
    (∀ signature : Signature, signature.Fits →
      ∃ bytes text, signature.toBytes = .ok bytes ∧ ofBytes bytes.bytes = .ok signature ∧
        signature.toText = .ok text ∧ parse (.text text) = .ok signature) ∧
    ∀ signature : Signature,
      signature.toText = signature.toBytes.map fun bytes => Hex.shown bytes.bytes := by
  refine ⟨?_, ?_, ?_, toText_eq_map_toBytes⟩
  · exact fun signature =>
      ⟨exists_textOf_iff hwidth hwidth', fun text => readsBack_of_textOf hwidth hwidth'⟩
  · intro bytes
    have hbytes := toBytes_ofFixedBytes bytes
    have htext := toText_eq_map_toBytes (ofFixedBytes bytes)
    rw [hbytes, map_ok] at htext
    exact ⟨_, ofBytes_bytes bytes, hbytes,
      (readsBack_of_textOf (by decide) (by decide) htext).parse_eq⟩
  · intro signature hfits
    obtain ⟨bytes, hbytes, rfl⟩ := hfits.exists_toBytes
    obtain ⟨text, htext, hparse⟩ := hfits.exists_toText
    exact ⟨bytes, text, hbytes, ofBytes_bytes bytes, htext, hparse⟩

/-- Zeros in front of small scalars are written. -/
theorem codecs_lossless_two :
    (0 < 2 ∧ 0 < 1) ∧ textOf (2 : Nat) (1 : Nat) ⟨1, 171, 0⟩ = .ok "0x000100ab00" ∧
      ReadsBack 2 1 ⟨1, 171, 0⟩ "0x000100ab00" ∧ Fits ⟨1, 171, 0⟩ ∧
      ∃ bytes, toBytes ⟨1, 171, 0⟩ = .ok bytes ∧ ofBytes bytes.bytes = .ok ⟨1, 171, 0⟩ := by
  have htext : textOf (2 : Nat) (1 : Nat) ⟨1, 171, 0⟩ = .ok "0x000100ab00" := by
    decide +kernel
  have hfits : Fits ⟨1, 171, 0⟩ := by constructor <;> decide
  obtain ⟨htexts, -, hforms, -⟩ := @codecs_lossless 2 1 (by decide) (by decide)
  obtain ⟨bytes, -, hbytes, hread, -⟩ := hforms _ hfits
  exact ⟨by decide, htext, (htexts _).2 _ htext, hfits, bytes, hbytes, hread⟩

end Signature

end ShardLedger
