import ShardLedger.Document.Field
import ShardLedger.Proofs.Bytes.Hex
import ShardLedger.Proofs.Fault
import ShardLedger.Proofs.Text.Numeral

/-!
# Checked fields

The checks on the parts of a document accept exactly what they describe, and what was
written as a field is read back from it.
-/

namespace ShardLedger.Datum

/-! ## Byte strings of a fixed length -/

theorem sized_eq_ok_iff {name : String} {n : Nat} {b : Bytes} {x : FixedBytes n} :
    sized name n b = .ok x ↔ b = x.bytes := by
  rw [← FixedBytes.ofBytes?_eq_some_iff]
  unfold sized
  split
  next y hy => simp [hy]
  next hnone => simp [hnone, refuse]

/-- A byte string of the wrong length is malformed. -/
theorem exists_flaw_of_sized {name : String} {n : Nat} {b : Bytes} {fault : Fault}
    (hfault : sized name n b = .error fault) : ∃ flaw, fault = .malformed flaw := by
  unfold sized at hfault
  split at hfault
  next => cases hfault
  next =>
    cases hfault
    exact ⟨_, rfl⟩

@[simp]
theorem sized_bytes (name : String) {n : Nat} (x : FixedBytes n) :
    sized name n x.bytes = .ok x :=
  sized_eq_ok_iff.mpr rfl

/-! ## Looking up fields -/

section

variable (name key : String) (value default : Datum) (rest : List (String × Datum))

@[simp]
theorem field_cons : (object ((key, value) :: rest)).field name =
    if key = name then .ok value else (object rest).field name := by
  by_cases hkey : key = name
  · simp only [field, Keyed.get?, if_pos hkey]
  · simp only [field, Keyed.get?, if_neg hkey]

@[simp]
theorem field?_cons : (object ((key, value) :: rest)).field? name =
    if key = name then .ok (some value) else (object rest).field? name := by
  by_cases hkey : key = name
  · simp only [field?, Keyed.get?, if_pos hkey]
  · simp only [field?, Keyed.get?, if_neg hkey]

/-- A value that counts as present. -/
def present? : Datum → Option Datum
  | null => none
  | other => some other

@[simp]
theorem optional_nil : (object []).optional name = .ok none := rfl

@[simp]
theorem optional_cons : (object ((key, value) :: rest)).optional name =
    if key = name then .ok (present? value) else (object rest).optional name := by
  by_cases hkey : key = name
  · rw [optional, field?_cons, if_pos hkey, if_pos hkey]
    cases value <;> rfl
  · rw [optional, field?_cons, if_neg hkey, if_neg hkey, optional]

end

/-! ## Replacing a field -/

section

variable (name : String) (value default : Datum) (fields : List (String × Datum))

theorem field?_put_self : (object (Keyed.put name value fields)).field? name = .ok (some value) :=
  congrArg Except.ok (Keyed.get?_put_self name value fields)

theorem field_put_self : (object (Keyed.put name value fields)).field name = .ok value := by
  rw [field, Keyed.get?_put_self]

theorem fieldOr_put_self :
    (object (Keyed.put name value fields)).fieldOr name default = .ok value := by
  rw [fieldOr, field?_put_self, ok_bind, pure_eq_ok, Option.getD_some]

theorem optional_put_self :
    (object (Keyed.put name value fields)).optional name = .ok (present? value) := by
  rw [optional, field?_put_self, ok_bind]
  cases value <;> rfl

variable {name} {other : String} (hother : other ≠ name)
include hother

theorem field?_put_of_ne :
    (object (Keyed.put name value fields)).field? other = (object fields).field? other :=
  congrArg Except.ok (Keyed.get?_put_of_ne hother value fields)

theorem field_put_of_ne :
    (object (Keyed.put name value fields)).field other = (object fields).field other := by
  rw [field, field, Keyed.get?_put_of_ne hother]

theorem fieldOr_put_of_ne : (object (Keyed.put name value fields)).fieldOr other default =
    (object fields).fieldOr other default := by
  rw [fieldOr, fieldOr, field?_put_of_ne value fields hother]

theorem optional_put_of_ne :
    (object (Keyed.put name value fields)).optional other = (object fields).optional other := by
  rw [optional, optional, field?_put_of_ne value fields hother]

end

@[simp]
theorem present?_null : present? null = none := rfl

@[simp]
theorem present?_int (n : Int) : present? (int n) = some (int n) := rfl

@[simp]
theorem present?_text (s : String) : present? (text s) = some (text s) := rfl

@[simp]
theorem present?_hex (b : Bytes) : present? (hex b) = some (hex b) := rfl

@[simp]
theorem present?_byteLists (ps : List Bytes) : present? (byteLists ps) = some (byteLists ps) := rfl

/-! ## Byte strings -/

@[simp]
theorem elements_list (items : List Datum) : (list items).elements = .ok items := rfl

@[simp]
theorem hexOf_hex (name : String) {n : Nat} (x : FixedBytes n) :
    hexOf n name (hex x.bytes) = .ok x := by
  have hread : (hex x.bytes).hexBytes name = .ok x.bytes := by
    rw [hex, hexBytes, Hex.dropMarker_shown, Hex.decode_encode]
  rw [hexOf, hread, ok_bind, sized_bytes]

theorem byte_int (x : UInt8) : (int x.toNat).byte = .ok x := by
  have hlt := x.toNat_lt
  have hrange : 0 ≤ (x.toNat : Int) ∧ (x.toNat : Int) < 256 := by omega
  rw [byte, if_pos hrange, Int.toNat_natCast]
  exact congrArg Except.ok (UInt8.ofNat_toNat)

theorem rawBytes_byteList (b : Bytes) : (byteList b).rawBytes = .ok b :=
  mapM_map_eq_ok fun x _ => byte_int x

@[simp]
theorem byteString_byteList (name : String) (b : Bytes) :
    (byteList b).byteString name = .ok b := by
  have hread := rawBytes_byteList b
  rw [byteList] at hread ⊢
  simp only [byteString, hread]

@[simp]
theorem parameters_byteLists (ps : List Bytes) : (byteLists ps).parameters = .ok ps := by
  rw [parameters, byteLists, elements_list, ok_bind]
  exact mapM_map_eq_ok fun b _ => byteString_byteList _ b

/-! ## Numbers -/

@[simp]
theorem unsigned_int (name : String) (n : Nat) : (int n).unsigned name = .ok n := by
  have hnonneg : ¬(n : Int) < 0 := by omega
  simp only [unsigned, pure_eq_ok, ok_bind, if_neg hnonneg, Int.toNat_natCast]

theorem unsigned_text (name : String) {n : Nat} (hn : n < 10 ^ Text.Numeral.digitLimit) :
    (text (toString n)).unsigned name = .ok n := by
  have hnonneg : ¬(n : Int) < 0 := by omega
  simp only [unsigned, Text.Numeral.parse?_toString hn, pure_eq_ok, ok_bind, if_neg hnonneg,
    Int.toNat_natCast]

theorem exists_numeral {n : Nat} (hn : n < 10 ^ Text.Numeral.digitLimit) (name : String) :
    ∃ d, numeral n = .ok d ∧ present? d = some d ∧ d.unsigned name = .ok n := by
  refine ⟨.text (toString n), ?_, rfl, unsigned_text name hn⟩
  rw [numeral, if_pos (Text.Numeral.isWritable_natCast.mpr hn)]

@[simp]
theorem optionalUnsigned_numberOrNull (name : String) (number : Option Nat) :
    optionalUnsigned name (present? (numberOrNull number)) = .ok number := by
  cases number with
  | none => rfl
  | some n =>
      rw [numberOrNull, present?_int, optionalUnsigned, unsigned_int]
      rfl

/-- A document that is `null` or a number from zero up. -/
def IsNumberOrNull (d : Datum) : Prop :=
  d = null ∨ ∃ n : Nat, d = int n

theorem IsNumberOrNull.exists_eq {d : Datum} (hd : d.IsNumberOrNull) :
    ∃ number, d = numberOrNull number := by
  rcases hd with hnull | ⟨n, hn⟩
  · exact ⟨none, hnull⟩
  · exact ⟨some n, hn⟩

@[simp]
theorem natural_int (name : String) (n : Nat) : (int n).natural name = .ok n := by
  have hnonneg : ¬(n : Int) < 0 := by omega
  simp only [natural, if_neg hnonneg, Int.toNat_natCast]

@[simp]
theorem amount_int (amount : { n : Nat // 0 < n }) :
    (int amount.val).amount = .ok amount := by
  obtain ⟨n, hn⟩ := amount
  obtain ⟨n, rfl⟩ := Nat.exists_eq_add_one.mpr hn
  rfl

@[simp]
theorem sixteenBits_int (name : String) (n : UInt16) :
    (int n.toNat).sixteenBits name = .ok n := by
  have hlt := n.toNat_lt
  have hrange : 0 ≤ (n.toNat : Int) ∧ (n.toNat : Int) < 65536 := by omega
  rw [sixteenBits, if_pos hrange, Int.toNat_natCast]
  exact congrArg Except.ok (UInt16.ofNat_toNat)

theorem natural_eq_ok_iff {name : String} {d : Datum} {n : Nat} :
    d.natural name = .ok n ↔ d = int n := by
  constructor
  · intro hread
    cases d with
    | int m =>
        by_cases hnegative : m < 0
        · rw [natural, if_pos hnegative] at hread
          cases hread
        · rw [natural, if_neg hnegative, Except.ok.injEq] at hread
          rw [← hread, Int.toNat_of_nonneg (Int.not_lt.mp hnegative)]
    | _ => cases hread
  · rintro rfl
    exact natural_int name n

theorem sixteenBits_eq_ok_iff {name : String} {d : Datum} {n : UInt16} :
    d.sixteenBits name = .ok n ↔ d = int n.toNat := by
  constructor
  · intro hread
    cases d with
    | int m =>
        by_cases hrange : 0 ≤ m ∧ m < 65536
        · rw [sixteenBits, if_pos hrange, Except.ok.injEq] at hread
          have hvalue : m = n.toNat := by
            rw [← hread, Nat.toUInt16, UInt16.toNat_ofNat']
            omega
          rw [hvalue]
        · rw [sixteenBits, if_neg hrange] at hread
          cases hread
    | _ => cases hread
  · rintro rfl
    exact sixteenBits_int name n

end ShardLedger.Datum
