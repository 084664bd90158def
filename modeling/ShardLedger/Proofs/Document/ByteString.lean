import ShardLedger.Proofs.Bytes.Spelling
import ShardLedger.Proofs.Document.Field

/-!
# What is read as a byte string

A byte string is denoted by itself, by the list of its bytes, and by hexadecimal text.  Reading
accepts these documents and coerces others: a number stands for as many zero bytes, a flag for
none or one of them or, within a list, for the byte zero or one, and the empty object for no
bytes.  Everything else is malformed, or a number too large to be a size.
-/

namespace ShardLedger.Datum

/-! ## Bytes -/

/-- The value of a flag in place of a byte. -/
def flagByte (flag : Bool) : UInt8 :=
  if flag then 1 else 0

/-- A document that is read as a byte: a number or a flag. -/
inductive ReadsAs : Datum → UInt8 → Prop
  | number (x : UInt8) : ReadsAs (int x.toNat) x
  | flag (value : Bool) : ReadsAs (bool value) (flagByte value)

theorem byte_eq_ok_iff {d : Datum} {x : UInt8} : d.byte = .ok x ↔ d.ReadsAs x := by
  constructor
  · intro hread
    cases d with
    | int n =>
        by_cases hrange : 0 ≤ n ∧ n < 256
        · rw [byte, if_pos hrange, Except.ok.injEq] at hread
          have hvalue : n = x.toNat := by
            rw [← hread, Nat.toUInt8, UInt8.toNat_ofNat']
            omega
          rw [hvalue]
          exact .number x
        · rw [byte, if_neg hrange] at hread
          cases hread
    | bool value =>
        cases hread
        exact .flag value
    | _ => cases hread
  · intro hreads
    cases hreads with
    | number => exact byte_int x
    | flag value => rfl

/-- Without flags, items that are read as bytes are the bytes. -/
theorem eq_map_of_readsAs {items : List Datum} {b : Bytes}
    (hitems : List.Forall₂ ReadsAs items b) (hflags : ∀ value, bool value ∉ items) :
    items = b.map fun x => int x.toNat := by
  induction hitems with
  | nil => rfl
  | @cons item x items b hitem hrest ih =>
      cases hitem with
      | number =>
          have hflags' : ∀ value, bool value ∉ items := by
            intro value hmem
            exact hflags value (List.mem_cons_of_mem _ hmem)
          rw [List.map_cons, ← ih hflags']
      | flag value => exact absurd List.mem_cons_self (hflags value)

/-! ## Byte strings -/

/-- A document that denotes a byte string. -/
inductive Denotes : Datum → Bytes → Prop
  | self (b : Bytes) : Denotes (bytes b) b
  | list (b : Bytes) : Denotes (byteList b) b
  | text {s : String} {b : Bytes} (hspells : Hex.Spells (Hex.dropMarker s.toList) b) :
      Denotes (text s) b

/-- A document that is read as a byte string although it denotes none. -/
inductive Coerces : Datum → Bytes → Prop
  | size {n : Int} (hnonneg : 0 ≤ n) (hlt : n < 0x8000000000000000) :
      Coerces (int n) (List.replicate n.toNat 0)
  | flag (value : Bool) : Coerces (bool value) (List.replicate (flagByte value).toNat 0)
  | emptyObject : Coerces (object []) []
  | flagged {items : List Datum} {b : Bytes} (hitems : List.Forall₂ ReadsAs items b)
      {value : Bool} (hflag : bool value ∈ items) : Coerces (list items) b

theorem Coerces.not_denotes {d : Datum} {b b' : Bytes} (hcoerces : d.Coerces b) :
    ¬d.Denotes b' := by
  intro hdenotes
  cases hcoerces with
  | flagged hitems hflag =>
      cases hdenotes with
      | list b' =>
          obtain ⟨x, -, hx⟩ := List.mem_map.mp hflag
          cases hx
  | _ => cases hdenotes

/-- A number that is no size, since sizes are signed numbers of 64 bits. -/
def IsOversize (n : Int) : Prop :=
  n < -0x8000000000000000 ∨ 0x8000000000000000 ≤ n

theorem zeros_eq_ok_iff {n : Int} {b : Bytes} :
    zeros n = .ok b ↔ (0 ≤ n ∧ n < 0x8000000000000000) ∧ b = List.replicate n.toNat 0 := by
  unfold zeros
  split
  next hsize =>
    have hrange : ¬(0 ≤ n ∧ n < 0x8000000000000000) := by omega
    simp [hrange]
  next hsize =>
    split
    next hnegative =>
      have hrange : ¬(0 ≤ n ∧ n < 0x8000000000000000) := by omega
      simp [hrange]
    next hnonneg =>
      have hrange : 0 ≤ n ∧ n < 0x8000000000000000 := by omega
      simp [hrange, eq_comm]

theorem rawBytes_list_eq_ok_iff {items : List Datum} {b : Bytes} :
    (list items).rawBytes = .ok b ↔ List.Forall₂ ReadsAs items b := by
  rw [rawBytes, mapM_eq_ok_iff]
  simp only [byte_eq_ok_iff]

theorem rawBytes_eq_ok_iff {d : Datum} {b : Bytes} (htext : ∀ s, d ≠ text s) :
    d.rawBytes = .ok b ↔ d.Denotes b ∨ d.Coerces b := by
  constructor
  · intro hread
    cases d with
    | bytes b' =>
        cases hread
        exact Or.inl (.self b)
    | int n =>
        rw [rawBytes, zeros_eq_ok_iff] at hread
        obtain ⟨⟨hnonneg, hlt⟩, rfl⟩ := hread
        exact Or.inr (.size hnonneg hlt)
    | bool value =>
        rw [rawBytes, zeros_eq_ok_iff] at hread
        obtain ⟨-, rfl⟩ := hread
        cases value with
        | false => exact Or.inr (.flag false)
        | true => exact Or.inr (.flag true)
    | list items =>
        have hitems := rawBytes_list_eq_ok_iff.mp hread
        by_cases hflags : ∀ value, bool value ∉ items
        · rw [eq_map_of_readsAs hitems hflags]
          exact Or.inl (.list b)
        · obtain ⟨value, hflag⟩ := not_forall_not.mp hflags
          exact Or.inr (.flagged hitems hflag)
    | object fields =>
        cases fields with
        | nil =>
            cases hread
            exact Or.inr .emptyObject
        | cons field rest => cases hread
    | text s => exact absurd rfl (htext s)
    | null => cases hread
    | real value => cases hread
  · intro hread
    rcases hread with hdenotes | hcoerces
    · cases hdenotes with
      | self => rfl
      | list => exact rawBytes_byteList b
      | text => exact absurd rfl (htext _)
    · cases hcoerces with
      | size hnonneg hlt => exact zeros_eq_ok_iff.mpr ⟨⟨hnonneg, hlt⟩, rfl⟩
      | flag value => cases value <;> rfl
      | emptyObject => rfl
      | flagged hitems hflag => exact rawBytes_list_eq_ok_iff.mpr hitems

theorem byte_error {d : Datum} {fault : Fault} (hfault : d.byte = .error fault) :
    fault = .wrongKind ∨ fault = .badValue := by
  unfold byte at hfault
  split at hfault
  next n =>
    split at hfault
    next => cases hfault
    next =>
      cases hfault
      exact Or.inr rfl
  next => cases hfault
  next =>
    cases hfault
    exact Or.inl rfl

theorem zeros_error {n : Int} {fault : Fault} (hfault : zeros n = .error fault) :
    fault = .badValue ∨ fault = .overflow ∧ IsOversize n := by
  unfold zeros at hfault
  split at hfault
  next hsize =>
    cases hfault
    exact Or.inr ⟨rfl, hsize⟩
  next =>
    split at hfault
    next =>
      cases hfault
      exact Or.inl rfl
    next => cases hfault

/-- What cannot be read is of the wrong kind or has a wrong value, or is too large to be a size. -/
theorem rawBytes_error {d : Datum} {fault : Fault} (hfault : d.rawBytes = .error fault) :
    fault = .wrongKind ∨ fault = .badValue ∨ fault = .overflow ∧ ∃ n, d = int n ∧ IsOversize n := by
  cases d with
  | bytes b => cases hfault
  | int n =>
      rcases zeros_error hfault with hbad | ⟨hoverflow, hsize⟩
      · exact Or.inr (Or.inl hbad)
      · exact Or.inr (Or.inr ⟨hoverflow, n, rfl, hsize⟩)
  | bool value => cases value <;> cases hfault
  | list items =>
      obtain ⟨item, -, hitem⟩ := exists_error_of_mapM hfault
      rcases byte_error hitem with hkind | hbad
      · exact Or.inl hkind
      · exact Or.inr (Or.inl hbad)
  | object fields =>
      cases fields with
      | nil => cases hfault
      | cons field rest =>
          cases hfault
          exact Or.inl rfl
  | _ =>
      cases hfault
      exact Or.inl rfl

/-- How a byte string reports that a document could not be read. -/
def byteListFault (name : String) : Fault → Fault
  | .wrongKind => .malformed (.notByteList name)
  | .badValue => .malformed (.notByteList name)
  | fault => fault

theorem byteString_of_ne_text {d : Datum} (htext : ∀ s, d ≠ text s) (name : String) :
    d.byteString name = d.rawBytes.mapError (byteListFault name) := by
  unfold byteString
  split
  next s => exact absurd rfl (htext s)
  next b => rfl
  next =>
    cases d.rawBytes with
    | ok b => rfl
    | error fault => cases fault <;> rfl

theorem byteString_text (name s : String) :
    (text s).byteString name =
      match Hex.decode (Hex.dropMarker s.toList) with
      | some b => .ok b
      | none => refuse (.notHex name s) := rfl

/-- Reading accepts what denotes a byte string and what is coerced into one. -/
theorem byteString_eq_ok_iff {name : String} {d : Datum} {b : Bytes} :
    d.byteString name = .ok b ↔ d.Denotes b ∨ d.Coerces b := by
  by_cases htext : ∀ s, d ≠ text s
  · rw [byteString_of_ne_text htext, ← rawBytes_eq_ok_iff htext]
    cases d.rawBytes with
    | ok b' => exact Iff.rfl
    | error fault => exact iff_of_false nofun nofun
  · obtain ⟨s, hs⟩ := not_forall_not.mp htext
    have hread : d.byteString name = .ok b ↔ Hex.Spells (Hex.dropMarker s.toList) b := by
      rw [hs, byteString_text, ← Hex.decode_eq_some_iff]
      cases Hex.decode (Hex.dropMarker s.toList) with
      | none => exact iff_of_false nofun nofun
      | some b' => rw [Except.ok.injEq, Option.some.injEq]
    rw [hread, hs]
    constructor
    · intro hspells
      exact Or.inl (.text hspells)
    · intro hdenotes
      rcases hdenotes with hdenotes | hcoerces
      · cases hdenotes with
        | text hspells => exact hspells
      · cases hcoerces

/-- What cannot be read is malformed, unless it is a number that is no size. -/
theorem byteString_error {name : String} {d : Datum} {fault : Fault}
    (hfault : d.byteString name = .error fault) :
    (∃ s, d = text s ∧ fault = .malformed (.notHex name s)) ∨
      fault = .malformed (.notByteList name) ∨
        fault = .overflow ∧ ∃ n, d = int n ∧ IsOversize n := by
  by_cases htext : ∀ s, d ≠ text s
  · rw [byteString_of_ne_text htext] at hfault
    cases hraw : d.rawBytes with
    | ok b =>
        rw [hraw] at hfault
        cases hfault
    | error cause =>
        rw [hraw] at hfault
        rcases rawBytes_error hraw with rfl | rfl | ⟨rfl, hsize⟩
        · cases hfault
          exact Or.inr (Or.inl rfl)
        · cases hfault
          exact Or.inr (Or.inl rfl)
        · cases hfault
          exact Or.inr (Or.inr ⟨rfl, hsize⟩)
  · obtain ⟨s, hs⟩ := not_forall_not.mp htext
    rw [hs, byteString_text] at hfault
    cases hdecode : Hex.decode (Hex.dropMarker s.toList) with
    | none =>
        rw [hdecode] at hfault
        cases hfault
        exact Or.inl ⟨s, hs, rfl⟩
    | some b =>
        rw [hdecode] at hfault
        cases hfault

/-! ## Lists of byte strings -/

theorem parameters_eq_ok_iff {d : Datum} {ps : List Bytes} :
    d.parameters = .ok ps ↔ ∃ items, d.elements = .ok items ∧
      List.Forall₂ (fun item p => item.Denotes p ∨ item.Coerces p) items ps := by
  simp only [parameters, bind_eq_ok_iff, mapM_eq_ok_iff, byteString_eq_ok_iff]

/-- A list is refused for one of its items, unless there is nothing to run through. -/
theorem parameters_error {d : Datum} {fault : Fault} (hfault : d.parameters = .error fault) :
    d.elements = .error fault ∨
      ∃ items, d.elements = .ok items ∧
        ∃ item ∈ items, item.byteString "parameter" = .error fault := by
  rcases bind_eq_error_iff.mp hfault with helements | ⟨items, helements, hitems⟩
  · exact Or.inl helements
  · exact Or.inr ⟨items, helements, exists_error_of_mapM hitems⟩

end ShardLedger.Datum
