import Mathlib.Algebra.Group.Int.Defs
import ShardLedger.Proofs.Bytes.Hex
import ShardLedger.Proofs.Fault
import ShardLedger.Signature.Basic

/-!
# The written forms of a signature

A signature whose numbers fit has a byte form and a text form, and both read back as the
signature.  The text form does so for every pair of widths.
-/

namespace ShardLedger

namespace Bytes

theorem place_natural (b : Bytes) (i : Nat) : place b i = min i b.length := by
  rw [place, if_neg (Int.not_lt.mpr (Int.natCast_nonneg i)), Int.toNat_natCast]

/-- Between two positions lies what is taken up to the second one and dropped up to the first. -/
theorem between_natural (b : Bytes) (i j : Nat) : b.between i j = (b.take j).drop i := by
  rw [between, place_natural, place_natural, ← List.take_eq_take_min]
  by_cases hi : i ≤ b.length
  · rw [Nat.min_eq_left hi]
  · rw [Nat.min_eq_right (by omega), List.drop_eq_nil_of_le (List.length_take_le' j b),
      List.drop_eq_nil_of_le (Nat.le_trans (List.length_take_le' j b) (by omega))]

end Bytes

namespace Signature

theorem bitLength_le_iff {n width : Nat} : bitLength n ≤ width ↔ n < 2 ^ width := by
  by_cases hn : n = 0
  · rw [bitLength, if_pos hn, hn]
    exact iff_of_true (Nat.zero_le width) (Nat.two_pow_pos width)
  · rw [bitLength, if_neg hn, Nat.add_one_le_iff, Nat.log2_lt hn]

theorem fitting_eq_ok_iff {value : Int} {width n : Nat} :
    fitting value width = .ok n ↔ value = n ∧ n < 256 ^ width := by
  have hwidth : ∀ m : Nat, (bitLength m : Int) ≤ width * 8 ↔ m < 256 ^ width := by
    intro m
    have hpower : 256 ^ width = 2 ^ (width * 8) := by
      rw [Nat.mul_comm, Nat.pow_mul]
    rw [hpower, ← bitLength_le_iff]
    omega
  by_cases hwide : value < 0 ∨ (bitLength value.toNat : Int) > width * 8
  · rw [fitting, if_pos hwide]
    constructor
    · intro hrefused
      cases hrefused
    · rintro ⟨rfl, hn⟩
      have hfits := (hwidth n).mpr hn
      rw [Int.toNat_natCast] at hwide
      omega
  · rw [fitting, if_neg hwide, Except.ok.injEq]
    have hnonneg : 0 ≤ value := by omega
    have hfits : value.toNat < 256 ^ width := (hwidth _).mp (by omega)
    constructor
    · rintro rfl
      exact ⟨(Int.toNat_of_nonneg hnonneg).symm, hfits⟩
    · rintro ⟨rfl, -⟩
      exact Int.toNat_natCast n

theorem fitting_natural {width n : Nat} (hn : n < 256 ^ width) : fitting n width = .ok n :=
  fitting_eq_ok_iff.mpr ⟨rfl, hn⟩

/-- The numbers of a signature fit into its byte form. -/
structure Fits (signature : Signature) : Prop where
  r_nonneg : 0 ≤ signature.r
  r_lt : signature.r < 2 ^ 256
  s_nonneg : 0 ≤ signature.s
  s_lt : signature.s < 2 ^ 256
  v_nonneg : 0 ≤ signature.v
  v_lt : signature.v < 256

theorem Fits.exists_natural {signature : Signature} (hfits : signature.Fits) :
    ∃ r s v : Nat, signature = ⟨r, s, v⟩ ∧ r < 256 ^ 32 ∧ s < 256 ^ 32 ∧ v < 256 ^ 1 := by
  obtain ⟨r, s, v⟩ := signature
  obtain ⟨hr, hr', hs, hs', hv, hv'⟩ := hfits
  obtain ⟨r, rfl⟩ := Int.eq_ofNat_of_zero_le hr
  obtain ⟨s, rfl⟩ := Int.eq_ofNat_of_zero_le hs
  obtain ⟨v, rfl⟩ := Int.eq_ofNat_of_zero_le hv
  refine ⟨r, s, v, rfl, ?_, ?_, ?_⟩
  · exact Int.ofNat_lt.mp hr'
  · exact Int.ofNat_lt.mp hs'
  · exact Int.ofNat_lt.mp hv'

/-! ## Parts of a byte string -/

/-- The bytes of both scalars in one width and of the recovery id in another one. -/
def joined (width width' r s v : Nat) : Bytes :=
  BigEndian.fixed width r ++ BigEndian.fixed width s ++ BigEndian.fixed width' v

/-- The signature whose scalars are the first two parts of a given width, and whose recovery id is
what is left. -/
def ofParts (width : Nat) (raw : Bytes) : Signature :=
  ⟨BigEndian.toNat (raw.take width), BigEndian.toNat ((raw.drop width).take width),
    BigEndian.toNat (raw.drop (2 * width))⟩

@[simp]
theorem length_joined (width width' r s v : Nat) :
    (joined width width' r s v).length = 2 * width + width' := by
  simp only [joined, List.length_append, BigEndian.length_fixed]
  omega

theorem ofParts_joined {width width' r s v : Nat} (hr : r < 256 ^ width) (hs : s < 256 ^ width)
    (hv : v < 256 ^ width') : ofParts width (joined width width' r s v) = ⟨r, s, v⟩ := by
  have hfirst : (joined width width' r s v).take width = BigEndian.fixed width r := by
    simp [joined]
  have hsecond : ((joined width width' r s v).drop width).take width = BigEndian.fixed width s := by
    simp [joined]
  have hlast : (joined width width' r s v).drop (2 * width) = BigEndian.fixed width' v := by
    simp [joined, List.drop_append, Nat.two_mul]
  rw [ofParts, hfirst, hsecond, hlast, BigEndian.toNat_fixed_of_lt hr,
    BigEndian.toNat_fixed_of_lt hs, BigEndian.toNat_fixed_of_lt hv]

/-! ## The byte form -/

theorem toBytes_natural {r s v : Nat} (hr : r < 256 ^ 32) (hs : s < 256 ^ 32) (hv : v < 256 ^ 1) :
    toBytes ⟨r, s, v⟩ = .ok ⟨joined 32 1 r s v, length_joined 32 1 r s v⟩ := by
  simp only [toBytes, scalarWidth, recoveryIdWidth, fitting_natural hr, fitting_natural hs,
    fitting_natural hv, ok_bind, pure_eq_ok]
  rfl

theorem Fits.exists_toBytes {signature : Signature} (hfits : signature.Fits) :
    ∃ bytes, signature.toBytes = .ok bytes ∧ ofFixedBytes bytes = signature := by
  obtain ⟨r, s, v, rfl, hr, hs, hv⟩ := hfits.exists_natural
  exact ⟨_, toBytes_natural hr hs hv, ofParts_joined hr hs hv⟩

/-- Signatures that fit have the same byte form only if they are the same. -/
theorem Fits.toBytes_inj {signature other : Signature} (hfits : signature.Fits)
    (hother : other.Fits) : signature.toBytes = other.toBytes ↔ signature = other := by
  obtain ⟨bytes, hbytes, hread⟩ := hfits.exists_toBytes
  obtain ⟨bytes', hbytes', hread'⟩ := hother.exists_toBytes
  constructor
  · intro hsame
    rw [hbytes, hbytes', Except.ok.injEq] at hsame
    rw [← hread, ← hread', hsame]
  · rintro rfl
    rfl

/-! ## The text form -/

theorem padHex_natural {width n : Nat} (hwidth : 0 < width) (hn : n < 256 ^ width) :
    padHex n width = .ok (Hex.encode (BigEndian.fixed width n)) := by
  obtain ⟨width, rfl⟩ := Nat.exists_eq_add_one.mpr hwidth
  have hcount : (((width + 1 : Nat) : Int) * 2).toNat = 2 * (width + 1) := by omega
  simp only [padHex, fitting_natural hn, ok_bind, pure_eq_ok, hcount]
  rw [← Hex.padded_eq_encode width n hn, Hex.padded]

theorem textOf_natural {width width' r s v : Nat} (hr : r < 256 ^ width) (hs : s < 256 ^ width)
    (hv : v < 256 ^ width') (hwidth : 0 < width) (hwidth' : 0 < width') :
    textOf width width' ⟨r, s, v⟩ =
      .ok ("0x" ++ String.ofList (Hex.encode (joined width width' r s v))) := by
  simp only [textOf, padHex_natural hwidth hr, padHex_natural hwidth hs, padHex_natural hwidth' hv,
    ok_bind, pure_eq_ok, joined, Hex.encode_append]

/-- Text of the right length is read by slicing the bytes that its digits spell. -/
theorem parseWidths_of_decode {width width' : Nat} {text : String} {raw : Bytes}
    (hlength : (Hex.dropMarker text.toList).length = 2 * (2 * width + width'))
    (hdecode : Hex.decode (Hex.dropMarker text.toList) = some raw) :
    parseWidths width width' (.text text) = .ok (ofParts width raw) := by
  have hbody : ¬((Hex.dropMarker text.toList).length : Int) ≠ (2 * (width : Int) + width') * 2 := by
    omega
  have hfirst : raw.between 0 width = raw.take width := by
    simpa using raw.between_natural 0 width
  have hsecond : raw.between width (2 * width) = (raw.drop width).take width := by
    have hslice := raw.between_natural width (2 * width)
    rw [List.drop_take, Nat.two_mul, Nat.add_sub_cancel] at hslice
    simpa [Int.two_mul] using hslice
  have hlast : raw.between (2 * width) raw.length = raw.drop (2 * width) := by
    simpa using raw.between_natural (2 * width) raw.length
  simp only [parseWidths, if_neg hbody, hdecode, hfirst, hsecond, hlast, ofParts]

theorem Fits.exists_toText {signature : Signature} (hfits : signature.Fits) :
    ∃ text, signature.toText = .ok text ∧ parse (.text text) = .ok signature := by
  obtain ⟨r, s, v, rfl, hr, hs, hv⟩ := hfits.exists_natural
  refine ⟨_, textOf_natural hr hs hv (by decide) (by decide), ?_⟩
  rw [← ofParts_joined hr hs hv]
  apply parseWidths_of_decode
  · rw [Hex.dropMarker_marked, Hex.length_encode, length_joined]
  · rw [Hex.dropMarker_marked, Hex.decode_encode]
    rfl

end Signature

end ShardLedger
