import ShardLedger.Proofs.Rlp.Reading

/-!
# Normal forms

Encoding a document and decoding the bytes gives back its normal form, in which text has
become its UTF-8 bytes and a number its shortest bytes.  Two documents share an encoding
exactly when they share a normal form, and only documents with a part that is not text,
bytes, a list or a number from zero on have none.
-/

namespace ShardLedger.Rlp

mutual

/-- The item that stands for a document: numbers have no zero bytes in front. -/
inductive NormalForm : Datum → Item → Prop
  | bytes (value : Bytes) : NormalForm (.bytes value) (.bytes value)
  | text (value : String) : NormalForm (.text value) (.bytes value.toUTF8.data.toList)
  | int {n : Int} {value : Bytes} (hhead : value.head? ≠ some 0)
      (hvalue : (BigEndian.toNat value : Int) = n) : NormalForm (.int n) (.bytes value)
  | list {documents : List Datum} {items : List Item} (hitems : NormalForms documents items) :
      NormalForm (.list documents) (.list items)

/-- The items that stand for documents, one for each. -/
inductive NormalForms : List Datum → List Item → Prop
  | nil : NormalForms [] []
  | cons {document : Datum} {documents : List Datum} {item : Item} {items : List Item}
      (hitem : NormalForm document item) (hitems : NormalForms documents items) :
      NormalForms (document :: documents) (item :: items)

end

/-- A document built to any depth from bytes, text, numbers from zero on and lists. -/
inductive Encodable : Datum → Prop
  | bytes (value : Bytes) : Encodable (.bytes value)
  | text (value : String) : Encodable (.text value)
  | int {n : Int} (hnonneg : 0 ≤ n) : Encodable (.int n)
  | list {documents : List Datum} (hall : ∀ document ∈ documents, Encodable document) :
      Encodable (.list documents)

/-- A document that contains, at any depth of its lists, something that has no encoding. -/
inductive Unencodable : Datum → Prop
  | null : Unencodable .null
  | bool (value : Bool) : Unencodable (.bool value)
  | negative {n : Int} (hnegative : n < 0) : Unencodable (.int n)
  | real (value : Binary64) : Unencodable (.real value)
  | object (fields : List (String × Datum)) : Unencodable (.object fields)
  | inside {document : Datum} {documents : List Datum} (hmem : document ∈ documents)
      (hdocument : Unencodable document) : Unencodable (.list documents)

theorem normalize_int_eq_ok_iff {n : Int} {item : Item} :
    normalize (.int n) = .ok item ↔ NormalForm (.int n) item := by
  rw [normalize]
  split
  next hnegative =>
    constructor
    · intro herror
      cases herror
    · intro hform
      cases hform with
      | int hhead hvalue => omega
  next hnonneg =>
    constructor
    · intro hok
      cases hok
      refine .int (BigEndian.head?_minimal_ne_zero _) ?_
      rw [BigEndian.toNat_minimal]
      omega
    · intro hform
      cases hform with
      | int hhead hvalue =>
          rw [← hvalue, Int.toNat_natCast, Item.nat, BigEndian.minimal_toNat hhead]

theorem normalize_list_eq_ok_iff {documents : List Datum} {item : Item} :
    normalize (.list documents) = .ok item ↔
      ∃ items, normalizeAll documents = .ok items ∧ item = .list items := by
  rw [normalize]
  cases normalizeAll documents with
  | error flaw => simp [bind, Except.bind]
  | ok items => simp [bind, Except.bind, pure, Except.pure, eq_comm]

theorem normalizeAll_cons_eq_ok_iff {document : Datum} {documents : List Datum}
    {items : List Item} :
    normalizeAll (document :: documents) = .ok items ↔
      ∃ item rest, normalize document = .ok item ∧ normalizeAll documents = .ok rest ∧
        items = item :: rest := by
  rw [normalizeAll]
  cases normalize document with
  | error flaw => simp [bind, Except.bind]
  | ok item =>
      cases normalizeAll documents with
      | error flaw => simp [bind, Except.bind]
      | ok rest => simp [bind, Except.bind, pure, Except.pure, eq_comm]

mutual

/-- The item that a document is encoded as is its normal form. -/
theorem normalize_eq_ok_iff : ∀ (document : Datum) (item : Item),
    normalize document = .ok item ↔ NormalForm document item
  | .bytes value, item => by
      rw [normalize]
      constructor
      · intro hok
        cases hok
        exact .bytes value
      · intro hform
        cases hform
        rfl
  | .text value, item => by
      rw [normalize]
      constructor
      · intro hok
        cases hok
        exact .text value
      · intro hform
        cases hform
        rfl
  | .int n, item => normalize_int_eq_ok_iff
  | .list documents, item => by
      rw [normalize_list_eq_ok_iff]
      constructor
      · rintro ⟨items, hitems, rfl⟩
        exact .list ((normalizeAll_eq_ok_iff documents items).mp hitems)
      · intro hform
        cases hform with
        | list hitems => exact ⟨_, (normalizeAll_eq_ok_iff documents _).mpr hitems, rfl⟩
  | .null, item | .bool _, item | .real _, item | .object _, item => by
      constructor
      · intro hok
        simp [normalize] at hok
      · intro hform
        cases hform

theorem normalizeAll_eq_ok_iff : ∀ (documents : List Datum) (items : List Item),
    normalizeAll documents = .ok items ↔ NormalForms documents items
  | [], items => by
      rw [normalizeAll]
      constructor
      · intro hok
        cases hok
        exact .nil
      · intro hform
        cases hform
        rfl
  | document :: documents, items => by
      rw [normalizeAll_cons_eq_ok_iff]
      constructor
      · rintro ⟨item, rest, hitem, hrest, rfl⟩
        exact .cons ((normalize_eq_ok_iff document item).mp hitem)
          ((normalizeAll_eq_ok_iff documents rest).mp hrest)
      · intro hforms
        cases hforms with
        | cons hitem hrest =>
            exact ⟨_, _, (normalize_eq_ok_iff document _).mpr hitem,
              (normalizeAll_eq_ok_iff documents _).mpr hrest, rfl⟩

end

theorem NormalForm.unique {document : Datum} {item other : Item}
    (hform : NormalForm document item) (hother : NormalForm document other) : item = other := by
  have hitem := (normalize_eq_ok_iff document item).mpr hform
  rw [(normalize_eq_ok_iff document other).mpr hother] at hitem
  exact (Except.ok.inj hitem).symm

theorem encode_eq_ok_iff {document : Datum} {bytes : Bytes} :
    encode document = .ok bytes ↔ ∃ item, NormalForm document item ∧ item.encode = bytes := by
  rw [encode]
  constructor
  · intro hok
    cases hitem : normalize document with
    | error flaw =>
        rw [hitem] at hok
        cases hok
    | ok item =>
        rw [hitem] at hok
        exact ⟨item, (normalize_eq_ok_iff document item).mp hitem, Except.ok.inj hok⟩
  · rintro ⟨item, hform, rfl⟩
    rw [(normalize_eq_ok_iff document item).mpr hform]
    rfl

theorem Item.nat_inj {m n : Nat} : Item.nat m = Item.nat n ↔ m = n := by
  constructor
  · intro hitem
    exact BigEndian.minimal_injective (Item.bytes.inj hitem)
  · rintro rfl
    rfl

theorem Item.text_inj {s t : String} : Item.text s = Item.text t ↔ s = t := by
  constructor
  · intro hitem
    have hbytes : s.toUTF8.data.toList = t.toUTF8.data.toList := Item.bytes.inj hitem
    exact String.toByteArray_inj.mp (ByteArray.ext (Array.toList_inj.mp hbytes))
  · rintro rfl
    rfl

/-! ## Documents without an encoding -/

theorem exists_normalizeAll_eq_ok_iff {documents : List Datum} :
    (∃ items, normalizeAll documents = .ok items) ↔
      ∀ document ∈ documents, ∃ item, normalize document = .ok item := by
  induction documents with
  | nil => simp [normalizeAll]
  | cons document documents ih =>
      rw [List.forall_mem_cons, ← ih]
      constructor
      · rintro ⟨items, hitems⟩
        obtain ⟨item, rest, hitem, hrest, -⟩ := normalizeAll_cons_eq_ok_iff.mp hitems
        exact ⟨⟨item, hitem⟩, ⟨rest, hrest⟩⟩
      · rintro ⟨⟨item, hitem⟩, ⟨rest, hrest⟩⟩
        exact ⟨_, normalizeAll_cons_eq_ok_iff.mpr ⟨item, rest, hitem, hrest, rfl⟩⟩

theorem Encodable.exists_normalize_eq_ok {document : Datum} (hdocument : Encodable document) :
    ∃ item, normalize document = .ok item := by
  induction hdocument with
  | bytes value => exact ⟨_, rfl⟩
  | text value => exact ⟨_, rfl⟩
  | int hnonneg => exact ⟨_, by rw [normalize, if_neg (Int.not_lt.mpr hnonneg)]⟩
  | list hall ih =>
      obtain ⟨items, hitems⟩ := exists_normalizeAll_eq_ok_iff.mpr ih
      exact ⟨.list items, normalize_list_eq_ok_iff.mpr ⟨items, hitems, rfl⟩⟩

theorem Unencodable.normalize_ne_ok {document : Datum} (hdocument : Unencodable document) :
    ∀ item, normalize document ≠ .ok item := by
  induction hdocument with
  | null | bool | real | object => simp [normalize]
  | negative hnegative =>
      intro item hok
      rw [normalize, if_pos hnegative] at hok
      cases hok
  | inside hmem hdocument ih =>
      intro item hok
      obtain ⟨items, hitems, -⟩ := normalize_list_eq_ok_iff.mp hok
      obtain ⟨part, hpart⟩ := exists_normalizeAll_eq_ok_iff.mp ⟨items, hitems⟩ _ hmem
      exact ih part hpart

mutual

theorem encodable_or_unencodable : ∀ document : Datum, Encodable document ∨ Unencodable document
  | .bytes value => Or.inl (.bytes value)
  | .text value => Or.inl (.text value)
  | .int n => by
      by_cases hnegative : n < 0
      · exact Or.inr (.negative hnegative)
      · exact Or.inl (.int (Int.not_lt.mp hnegative))
  | .list documents => by
      rcases allEncodable_or_unencodable documents with hall | ⟨document, hmem, hdocument⟩
      · exact Or.inl (.list hall)
      · exact Or.inr (.inside hmem hdocument)
  | .null => Or.inr .null
  | .bool value => Or.inr (.bool value)
  | .real value => Or.inr (.real value)
  | .object fields => Or.inr (.object fields)

theorem allEncodable_or_unencodable : ∀ documents : List Datum,
    (∀ document ∈ documents, Encodable document) ∨
      ∃ document ∈ documents, Unencodable document
  | [] => Or.inl fun _ hmem => absurd hmem List.not_mem_nil
  | document :: documents => by
      rcases encodable_or_unencodable document with hdocument | hdocument
      · rcases allEncodable_or_unencodable documents with hall | ⟨other, hmem, hother⟩
        · exact Or.inl (List.forall_mem_cons.mpr ⟨hdocument, hall⟩)
        · exact Or.inr ⟨other, List.mem_cons_of_mem _ hmem, hother⟩
      · exact Or.inr ⟨document, List.mem_cons_self, hdocument⟩

end

theorem encode_eq_error_iff {document : Datum} :
    (∃ flaw, encode document = .error flaw) ↔ Unencodable document := by
  constructor
  · rintro ⟨flaw, herror⟩
    rcases encodable_or_unencodable document with hdocument | hdocument
    · obtain ⟨item, hitem⟩ := hdocument.exists_normalize_eq_ok
      rw [encode, hitem] at herror
      cases herror
    · exact hdocument
  · intro hdocument
    cases hresult : normalize document with
    | error flaw => exact ⟨flaw, by rw [encode, hresult]; rfl⟩
    | ok item => exact absurd hresult (hdocument.normalize_ne_ok item)

/-! ## The round trip -/

/-- Decoding the encoding of a document gives its normal form, which tells encodings apart; only
documents with a part that has no encoding are refused. -/
theorem decode_encode_normalForm :
    (∀ document, Encodable document →
      ∃ item bytes, NormalForm document item ∧ (∀ other, NormalForm document other → other = item) ∧
        encode document = .ok bytes ∧ (bytes.length < 2 ^ 64 → decode bytes = .ok item)) ∧
    (∀ document other bytes, encode document = .ok bytes → bytes.length < 2 ^ 64 →
      (encode document = encode other ↔
        ∃ item, NormalForm document item ∧ NormalForm other item)) ∧
    (∀ document, (∃ flaw, encode document = .error flaw) ↔ Unencodable document) := by
  refine ⟨?_, ?_, fun document => encode_eq_error_iff⟩
  · intro document hdocument
    obtain ⟨item, hitem⟩ := hdocument.exists_normalize_eq_ok
    have hform := (normalize_eq_ok_iff document item).mp hitem
    exact ⟨item, item.encode, hform, fun other hother => hother.unique hform,
      encode_eq_ok_iff.mpr ⟨item, hform, rfl⟩, decode_encode⟩
  · intro document other bytes hencode hlength
    obtain ⟨item, hform, rfl⟩ := encode_eq_ok_iff.mp hencode
    rw [hencode]
    constructor
    · intro hsame
      obtain ⟨item', hform', hencode'⟩ := encode_eq_ok_iff.mp hsame.symm
      obtain rfl := (Item.encode_inj hlength).mp hencode'.symm
      exact ⟨_, hform, hform'⟩
    · rintro ⟨item', hform', hother'⟩
      obtain rfl := hform.unique hform'
      exact (encode_eq_ok_iff.mpr ⟨_, hother', rfl⟩).symm

/-- A transfer's network, nonce, an empty script and an empty list, in one list. -/
def mixedDocument : Datum :=
  .list [.text "tc", .int 1024, .bytes [], .list []]

theorem decode_encode_mixedDocument :
    ∃ bytes, encode mixedDocument = .ok bytes ∧ bytes.length = 9 ∧
      decode bytes = .ok (.list [.bytes [0x74, 0x63], .bytes [4, 0], .bytes [], .list []]) := by
  have hencodable : Encodable mixedDocument := by
    refine .list fun document hmem => ?_
    simp only [List.mem_cons, List.not_mem_nil, or_false] at hmem
    rcases hmem with rfl | rfl | rfl | rfl
    · exact .text "tc"
    · exact .int (by decide)
    · exact .bytes []
    · exact .list fun _ hnone => absurd hnone List.not_mem_nil
  have htext : NormalForm (.text "tc") (.bytes [0x74, 0x63]) := .text "tc"
  have hnumber : NormalForm (.int 1024) (.bytes [4, 0]) := .int (by decide) (by decide)
  have hform : NormalForm mixedDocument
      (.list [.bytes [0x74, 0x63], .bytes [4, 0], .bytes [], .list []]) :=
    .list (.cons htext (.cons hnumber (.cons (.bytes []) (.cons (.list .nil) .nil))))
  have hbytes : encode mixedDocument = .ok [0xc8, 0x82, 0x74, 0x63, 0x82, 4, 0, 0x80, 0xc0] :=
    encode_eq_ok_iff.mpr ⟨_, hform, by decide⟩
  obtain ⟨item, bytes, -, hunique, hencode, hdecode⟩ :=
    decode_encode_normalForm.1 mixedDocument hencodable
  obtain rfl := hunique _ hform
  rw [hbytes] at hencode
  cases hencode
  exact ⟨_, hbytes, rfl, hdecode (by decide)⟩

end ShardLedger.Rlp
