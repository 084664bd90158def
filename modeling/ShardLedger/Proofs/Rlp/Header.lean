import ShardLedger.Proofs.Bytes.BigEndian
import ShardLedger.Rlp.Decoding

/-!
# Headers

A header tells the length of the payload behind it.  Writing and reading headers are
inverse to each other for lengths of at most eight bytes, so that each length has
exactly one header that is accepted.
-/

namespace ShardLedger.Rlp

/-- Lengths from here on have no header. -/
def lengthLimit : Nat := 256 ^ 8

theorem readLength_eq_ok_iff {data : Bytes} {size length : Nat} :
    readLength data size = .ok length ↔
      size ≤ data.length ∧ (data.take size).head? ≠ some 0 ∧
        BigEndian.toNat (data.take size) = length ∧ shortLimit < length := by
  simp only [readLength]
  split
  next hshort =>
    rw [List.length_take] at hshort
    constructor
    · intro herror
      cases herror
    · rintro ⟨hsize, -⟩
      omega
  next hsize =>
    rw [List.length_take] at hsize
    split
    next hzero => simp [hzero]
    next hhead =>
      split
      next hle =>
        constructor
        · intro herror
          cases herror
        · rintro ⟨-, -, rfl, hlt⟩
          omega
      next hgt =>
        constructor
        · intro hok
          cases hok
          exact ⟨by omega, hhead, rfl, by omega⟩
        · rintro ⟨-, -, rfl, -⟩
          rfl

theorem readHeader_eq_ok_iff {short long : Nat} {code : UInt8} {data : Bytes} {size length : Nat} :
    readHeader short long code data = .ok (size, length) ↔
      (code.toNat ≤ long ∧ size = 0 ∧ length = code.toNat - short) ∨
        (long < code.toNat ∧ size = code.toNat - long ∧ readLength data size = .ok length) := by
  unfold readHeader
  split
  next hle =>
    constructor
    · intro hok
      cases hok
      exact Or.inl ⟨hle, rfl, rfl⟩
    · rintro (⟨-, rfl, rfl⟩ | ⟨hlt, -⟩)
      · rfl
      · omega
  next hlt =>
    cases hread : readLength data (code.toNat - long) with
    | error flaw =>
        constructor
        · intro herror
          simp [hread, bind, Except.bind] at herror
        · rintro (⟨hle, -⟩ | ⟨-, rfl, hok⟩)
          · omega
          · rw [hread] at hok
            cases hok
    | ok read =>
        constructor
        · intro hok
          simp only [hread, bind, Except.bind, pure, Except.pure, Except.ok.injEq,
            Prod.mk.injEq] at hok
          obtain ⟨rfl, rfl⟩ := hok
          exact Or.inr ⟨by omega, rfl, hread⟩
        · rintro (⟨hle, -⟩ | ⟨-, rfl, hok⟩)
          · omega
          · rw [hread] at hok
            cases hok
            simp [hread, bind, Except.bind, pure, Except.pure]

/-- A payload is read behind a header of its kind at the front of the data, and both together take
`size` bytes. -/
def Framed (short long : Nat) (data payload : Bytes) (size : Nat) : Prop :=
  ∃ code rest headerSize, data = code :: rest ∧ short ≤ code.toNat ∧ code.toNat ≤ long + 8 ∧
    readHeader short long code rest = .ok (headerSize, payload.length) ∧
    headerSize + payload.length ≤ rest.length ∧
    (rest.drop headerSize).take payload.length = payload ∧
    size = 1 + headerSize + payload.length

section

variable {short long : Nat} (hshort : short + shortLimit = long) (hlong : long + 8 < 256)

include hshort hlong

/-- The first byte of a header tells its kind. -/
theorem exists_header_eq_cons {length : Nat} (hlength : length < lengthLimit) :
    ∃ code size, header short long length = code :: size ∧
      short ≤ code.toNat ∧ code.toNat ≤ long + 8 := by
  unfold header
  split
  next hle =>
    refine ⟨_, _, rfl, ?_⟩
    rw [BigEndian.toNat_toUInt8, Nat.mod_eq_of_lt (by omega)]
    omega
  next hgt =>
    have hsize := BigEndian.length_minimal_le hlength
    refine ⟨_, _, rfl, ?_⟩
    rw [BigEndian.toNat_toUInt8, Nat.mod_eq_of_lt (by omega)]
    omega

/-- Reading a header finds the length and the size whose header stands in front of the data. -/
theorem readHeader_eq_ok_iff_header {code : UInt8} {data : Bytes} {size length : Nat}
    (hcode : short ≤ code.toNat) (hcode' : code.toNat ≤ long + 8) :
    readHeader short long code data = .ok (size, length) ↔
      length < lengthLimit ∧ size ≤ data.length ∧
        header short long length = code :: data.take size := by
  rw [readHeader_eq_ok_iff]
  constructor
  · rintro (⟨hle, rfl, rfl⟩ | ⟨hlt, rfl, hread⟩)
    · have hsmall : code.toNat - short ≤ shortLimit := by omega
      have hback : (short + (code.toNat - short)).toUInt8 = code := by
        apply UInt8.toNat_inj.mp
        rw [BigEndian.toNat_toUInt8, Nat.mod_eq_of_lt (by omega)]
        omega
      refine ⟨Nat.lt_of_le_of_lt hsmall (by decide), Nat.zero_le _, ?_⟩
      rw [header, if_pos hsmall, hback, List.take_zero]
    · obtain ⟨hsize, hhead, rfl, hlarge⟩ := readLength_eq_ok_iff.mp hread
      have hlength : (data.take (code.toNat - long)).length = code.toNat - long := by
        rw [List.length_take]
        omega
      have hback : (long + (code.toNat - long)).toUInt8 = code := by
        apply UInt8.toNat_inj.mp
        rw [BigEndian.toNat_toUInt8, Nat.mod_eq_of_lt (by omega)]
        omega
      refine ⟨?_, hsize, ?_⟩
      · have hbound := BigEndian.toNat_lt (data.take (code.toNat - long))
        rw [hlength] at hbound
        exact Nat.lt_of_lt_of_le hbound (Nat.pow_le_pow_right (by decide) (by omega))
      · rw [header, if_neg (by omega)]
        simp only [BigEndian.minimal_toNat hhead, hlength, hback]
  · rintro ⟨hlength, hsize, hheader⟩
    unfold header at hheader
    split at hheader
    next hle =>
      obtain ⟨rfl, htake⟩ := List.cons.inj hheader
      have hzero : size = 0 := by
        have hnil := congrArg List.length htake
        rw [List.length_nil, List.length_take] at hnil
        omega
      left
      rw [BigEndian.toNat_toUInt8, Nat.mod_eq_of_lt (by omega)]
      omega
    next hgt =>
      obtain ⟨rfl, htake⟩ := List.cons.inj hheader
      have hminimal := BigEndian.length_minimal_le hlength
      have hpos : (BigEndian.minimal length).length ≠ 0 := by
        rw [ne_eq, List.length_eq_zero_iff]
        exact BigEndian.minimal_ne_nil (by omega)
      have hsize' : size = (BigEndian.minimal length).length := by
        rw [htake, List.length_take]
        omega
      right
      rw [BigEndian.toNat_toUInt8, Nat.mod_eq_of_lt (by omega)]
      refine ⟨by omega, by omega, readLength_eq_ok_iff.mpr ⟨hsize, ?_, ?_, by omega⟩⟩
      · rw [← htake]
        exact BigEndian.head?_minimal_ne_zero length
      · rw [← htake, BigEndian.toNat_minimal]

/-- A payload stands behind a header at the front of the data exactly when its header and itself
are there. -/
theorem framed_iff {data payload : Bytes} {size : Nat} :
    Framed short long data payload size ↔
      payload.length < lengthLimit ∧ size ≤ data.length ∧
        data.take size = header short long payload.length ++ payload := by
  constructor
  · rintro ⟨code, rest, headerSize, rfl, hcode, hcode', hread, hfits, hpayload, rfl⟩
    obtain ⟨hlength, -, hheader⟩ :=
      (readHeader_eq_ok_iff_header hshort hlong hcode hcode').mp hread
    refine ⟨hlength, by rw [List.length_cons]; omega, ?_⟩
    rw [hheader, show 1 + headerSize + payload.length = (headerSize + payload.length) + 1 by omega,
      List.take_succ_cons, List.take_add, hpayload, List.cons_append]
  · rintro ⟨hlength, hsize, htake⟩
    obtain ⟨code, sizeBytes, hheader, hcode, hcode'⟩ := exists_header_eq_cons hshort hlong hlength
    rw [hheader, List.cons_append] at htake
    cases data with
    | nil =>
        rw [List.take_nil] at htake
        cases htake
    | cons first rest =>
        cases size with
        | zero => cases htake
        | succ size =>
            rw [List.take_succ_cons] at htake
            obtain ⟨rfl, hbytes⟩ := List.cons.inj htake
            rw [List.length_cons] at hsize
            obtain rfl : size = sizeBytes.length + payload.length := by
              have hlengths := congrArg List.length hbytes
              rw [List.length_take, List.length_append] at hlengths
              omega
            have hrest : rest =
                sizeBytes ++ (payload ++ rest.drop (sizeBytes.length + payload.length)) := by
              rw [← List.append_assoc, ← hbytes, List.take_append_drop]
            refine ⟨first, rest, sizeBytes.length, rfl, hcode, hcode', ?_, by omega, ?_, by omega⟩
            · refine (readHeader_eq_ok_iff_header hshort hlong hcode hcode').mpr
                ⟨hlength, by omega, ?_⟩
              rw [hheader, hrest, List.take_left]
            · rw [hrest, List.drop_left, List.take_left]

end

theorem framed_string_iff {data payload : Bytes} {size : Nat} :
    Framed 0x80 0xb7 data payload size ↔
      payload.length < lengthLimit ∧ size ≤ data.length ∧
        data.take size = header 0x80 0xb7 payload.length ++ payload :=
  framed_iff (by decide) (by decide)

theorem framed_list_iff {data payload : Bytes} {size : Nat} :
    Framed 0xc0 0xf7 data payload size ↔
      payload.length < lengthLimit ∧ size ≤ data.length ∧
        data.take size = header 0xc0 0xf7 payload.length ++ payload :=
  framed_iff (by decide) (by decide)

end ShardLedger.Rlp
