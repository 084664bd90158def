import ShardLedger.Proofs.Fault
import ShardLedger.Proofs.Rlp.NormalForm

/-!
# Encodings among other bytes

An encoding tells by itself where it ends.  Read from its offset in any data, it gives its
item and the offset behind it.  No encoding starts with another one, and encodings that are
written one after the other are told apart again.
-/

namespace ShardLedger.Rlp

theorem readItemAt_eq_ok_iff {data : Bytes} {offset next : Nat} {item : Item} :
    readItemAt data offset = .ok (item, next) ↔
      ∃ size, Reads (data.drop offset) item size ∧ next = offset + size := by
  rw [readItemAt, map_eq_ok_iff]
  constructor
  · rintro ⟨⟨⟨found, size⟩, hbounds⟩, hread, hfound⟩
    obtain ⟨rfl, rfl⟩ := Prod.mk.inj hfound
    exact ⟨size, map_eq_ok_iff.mpr ⟨_, hread, rfl⟩, rfl⟩
  · rintro ⟨size, hread, rfl⟩
    obtain ⟨read, hread, hval⟩ := map_eq_ok_iff.mp hread
    exact ⟨read, hread, by rw [hval]⟩

/-! ## One encoding -/

section

variable {item other : Item} (hlength : item.encode.length < lengthLimit)
include hlength

/-- Whatever follows an encoding, its item is read from the front. -/
theorem reads_encode_append (behind : Bytes) :
    Reads (item.encode ++ behind) item item.encode.length := by
  refine (reads_iff item _ _).mpr ⟨Item.fits_of_length_lt hlength, ?_, List.take_left⟩
  rw [List.length_append]
  exact Nat.le_add_right _ _

/-- An encoding is read from its offset, whatever surrounds it. -/
theorem readItemAt_append_encode (before behind : Bytes) :
    readItemAt (before ++ item.encode ++ behind) before.length =
      .ok (item, before.length + item.encode.length) := by
  refine readItemAt_eq_ok_iff.mpr ⟨item.encode.length, ?_, rfl⟩
  rw [List.append_assoc, List.drop_left]
  exact reads_encode_append hlength behind

/-- An encoding that another one starts with is the whole of it. -/
theorem Item.eq_of_encode_isPrefix (hother : other.encode.length < lengthLimit)
    (hstart : item.encode <+: other.encode) : item = other := by
  obtain ⟨behind, hbehind⟩ := hstart
  have hitem := readItemAt_append_encode hlength [] behind
  have hwhole := readItemAt_append_encode hother [] []
  rw [List.nil_append] at hitem hwhole
  rw [List.append_nil, ← hbehind, hitem] at hwhole
  exact congrArg Prod.fst (Except.ok.inj hwhole)

end

/-! ## Encodings one after the other -/

theorem readItems_encodeAll {items : List Item} (hfit : Item.AllFit items) :
    readItems (Item.encodeAll items) (Item.encodeAll items).length = .ok items :=
  (readItems_iff items _ _).mpr ⟨hfit, Nat.le_refl _, List.take_length⟩

theorem Item.encodeAll_inj {items others : List Item} (hitems : Item.AllFit items)
    (hothers : Item.AllFit others) :
    Item.encodeAll items = Item.encodeAll others ↔ items = others := by
  constructor
  · intro hencode
    have hread := readItems_encodeAll hitems
    rw [hencode, readItems_encodeAll hothers] at hread
    exact (Except.ok.inj hread).symm
  · rintro rfl
    rfl

/-- The encodings of documents, one after the other, are those of the items that stand for
them. -/
theorem exists_normalForms_of_mapM_encode {documents : List Datum} {parts : List Bytes}
    (hparts : documents.mapM encode = .ok parts) (hlength : ∀ part ∈ parts, part.length < lengthLimit) :
    ∃ items, NormalForms documents items ∧ Item.AllFit items ∧
      parts.flatten = Item.encodeAll items := by
  induction documents generalizing parts with
  | nil =>
      cases hparts
      exact ⟨[], .nil, trivial, rfl⟩
  | cons document documents ih =>
      obtain ⟨part, rest, hpart, hrest, rfl⟩ := mapM_cons_eq_ok_iff.mp hparts
      obtain ⟨hfirst, hlater⟩ := List.forall_mem_cons.mp hlength
      obtain ⟨item, hform, rfl⟩ := encode_eq_ok_iff.mp hpart
      obtain ⟨items, hforms, hfit, hflatten⟩ := ih hrest hlater
      refine ⟨item :: items, .cons hform hforms, ?_, ?_⟩
      · rw [Item.AllFit]
        exact ⟨Item.fits_of_length_lt hfirst, hfit⟩
      · rw [List.flatten_cons, hflatten, Item.encodeAll]

theorem NormalForms.unique {documents : List Datum} {items others : List Item}
    (hforms : NormalForms documents items) (hothers : NormalForms documents others) :
    items = others := by
  have hitems := (normalizeAll_eq_ok_iff documents items).mpr hforms
  rw [(normalizeAll_eq_ok_iff documents others).mpr hothers] at hitems
  exact (Except.ok.inj hitems).symm

/-! ## Self-delimitation -/

/-- An encoding shorter than `2 ^ 64` bytes is read back from any surroundings, together with the
offset behind it; none starts with another one, and several in a row determine the items they were
made from. -/
theorem encodings_self_delimiting :
    (∀ document, Encodable document →
      ∃ item bytes, NormalForm document item ∧ encode document = .ok bytes ∧
        (bytes.length < 2 ^ 64 → ∀ before behind,
          readItemAt (before ++ bytes ++ behind) before.length =
            .ok (item, before.length + bytes.length))) ∧
    (∀ document other bytes bytes', encode document = .ok bytes → encode other = .ok bytes' →
      bytes.length < 2 ^ 64 → bytes'.length < 2 ^ 64 → bytes <+: bytes' → bytes = bytes') ∧
    (∀ documents others parts parts', documents.mapM encode = .ok parts →
      others.mapM encode = .ok parts' → (∀ part ∈ parts, part.length < 2 ^ 64) →
      (∀ part ∈ parts', part.length < 2 ^ 64) →
      (parts.flatten = parts'.flatten ↔
        ∃ items, NormalForms documents items ∧ NormalForms others items)) := by
  refine ⟨?_, ?_, ?_⟩
  · intro document hdocument
    obtain ⟨item, hitem⟩ := hdocument.exists_normalize_eq_ok
    have hform := (normalize_eq_ok_iff document item).mp hitem
    exact ⟨item, item.encode, hform, encode_eq_ok_iff.mpr ⟨item, hform, rfl⟩,
      readItemAt_append_encode⟩
  · intro document other bytes bytes' hencode hencode' hlength hlength' hstart
    obtain ⟨item, -, rfl⟩ := encode_eq_ok_iff.mp hencode
    obtain ⟨item', -, rfl⟩ := encode_eq_ok_iff.mp hencode'
    rw [Item.eq_of_encode_isPrefix hlength hlength' hstart]
  · intro documents others parts parts' hparts hparts' hlength hlength'
    obtain ⟨items, hforms, hfit, hflatten⟩ := exists_normalForms_of_mapM_encode hparts hlength
    obtain ⟨items', hforms', hfit', hflatten'⟩ :=
      exists_normalForms_of_mapM_encode hparts' hlength'
    rw [hflatten, hflatten', Item.encodeAll_inj hfit hfit']
    constructor
    · rintro rfl
      exact ⟨items, hforms, hforms'⟩
    · rintro ⟨shared, hshared, hshared'⟩
      rw [hforms.unique hshared, hforms'.unique hshared']

/-- A list of an empty list and a network. -/
def emptyBesideText : Datum :=
  .list [.list [], .text "tc"]

/-- The bytes around the encoding look like headers of longer payloads. -/
theorem encodings_self_delimiting_amidHeaders :
    encode emptyBesideText = .ok [0xc4, 0xc0, 0x82, 0x74, 0x63] ∧
      readItemAt ([0xf8, 0xb7] ++ [0xc4, 0xc0, 0x82, 0x74, 0x63] ++ [0xc1]) 2 =
        .ok (.list [.list [], .bytes [0x74, 0x63]], 7) := by
  have hencodable : Encodable emptyBesideText := by
    refine .list fun document hmem => ?_
    simp only [List.mem_cons, List.not_mem_nil, or_false] at hmem
    rcases hmem with rfl | rfl
    · exact .list fun _ hnone => absurd hnone List.not_mem_nil
    · exact .text "tc"
  have hform : NormalForm emptyBesideText (.list [.list [], .bytes [0x74, 0x63]]) :=
    .list (.cons (.list .nil) (.cons (.text "tc") .nil))
  have hbytes : encode emptyBesideText = .ok [0xc4, 0xc0, 0x82, 0x74, 0x63] :=
    encode_eq_ok_iff.mpr ⟨_, hform, by decide⟩
  obtain ⟨item, bytes, hitem, hencode, hread⟩ := encodings_self_delimiting.1 _ hencodable
  obtain rfl := hitem.unique hform
  rw [hbytes] at hencode
  cases hencode
  exact ⟨hbytes, hread (by decide) [0xf8, 0xb7] [0xc1]⟩

end ShardLedger.Rlp
