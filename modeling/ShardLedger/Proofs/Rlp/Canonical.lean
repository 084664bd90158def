import ShardLedger.Proofs.Rlp.NormalForm

/-!
# Canonical encodings

Decoding accepts nothing but encodings: what it reads, written again, is the data that
were read.  An item therefore has a single accepted spelling, at every depth.
-/

namespace ShardLedger.Rlp

mutual

/-- An item as the document that is handed out for it. -/
def Item.document : Item → Datum
  | .bytes value => .bytes value
  | .list items => .list (Item.documents items)

/-- Items as the documents that are handed out for them. -/
def Item.documents : List Item → List Datum
  | [] => []
  | item :: items => item.document :: Item.documents items

end

mutual

theorem Item.normalForm_document : ∀ item : Item, NormalForm item.document item
  | .bytes value => by
      rw [Item.document]
      exact .bytes value
  | .list items => by
      rw [Item.document]
      exact .list (Item.normalForms_documents items)

theorem Item.normalForms_documents : ∀ items : List Item, NormalForms (Item.documents items) items
  | [] => by
      rw [Item.documents]
      exact .nil
  | item :: items => by
      rw [Item.documents]
      exact .cons (Item.normalForm_document item) (Item.normalForms_documents items)

end

/-- Decoding accepts the canonical spelling of each item and no other. -/
theorem decode_canonical :
    (∀ bytes item, decode bytes = .ok item → encode item.document = .ok bytes) ∧
    (∀ bytes : Bytes, bytes.length < 2 ^ 64 →
      ((∃ item, decode bytes = .ok item) ↔ ∃ document, encode document = .ok bytes)) ∧
    (∀ bytes other item, decode bytes = .ok item → decode other = .ok item → bytes = other) := by
  have hcanonical : ∀ bytes item, decode bytes = .ok item →
      encode item.document = .ok bytes := by
    intro bytes item hdecode
    obtain ⟨-, hencode⟩ := decode_eq_ok_iff_encode.mp hdecode
    exact encode_eq_ok_iff.mpr ⟨item, item.normalForm_document, hencode⟩
  refine ⟨hcanonical, ?_, ?_⟩
  · intro bytes hlength
    constructor
    · rintro ⟨item, hdecode⟩
      exact ⟨item.document, hcanonical bytes item hdecode⟩
    · rintro ⟨document, hencode⟩
      obtain ⟨item, -, rfl⟩ := encode_eq_ok_iff.mp hencode
      exact ⟨item, decode_encode hlength⟩
  · intro bytes other item hbytes hother
    have hencode := hcanonical bytes item hbytes
    rw [hcanonical other item hother] at hencode
    exact (Except.ok.inj hencode).symm

/-- A list whose second item is a byte that needs a header. -/
theorem decode_canonical_twoItems :
    decode [0xc3, 0x7f, 0x81, 0x80] = .ok (.list [.bytes [0x7f], .bytes [0x80]]) ∧
      encode (.list [.bytes [0x7f], .bytes [0x80]]) = .ok [0xc3, 0x7f, 0x81, 0x80] := by
  have hdecode :
      decode [0xc3, 0x7f, 0x81, 0x80] = .ok (.list [.bytes [0x7f], .bytes [0x80]]) :=
    decode_eq_ok_iff_encode.mpr ⟨Item.fits_of_length_lt (by decide), by decide⟩
  exact ⟨hdecode, decode_canonical.1 _ _ hdecode⟩

end ShardLedger.Rlp
