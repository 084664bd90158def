import ShardLedger.Proofs.Transaction.ByteFields
import ShardLedger.Proofs.Transaction.Document
import ShardLedger.Proofs.Transaction.MintedType

/-!
# Metadata of mints that were read

Every transaction that was read has an encoding, unless it is a mint whose metadata have none:
reading takes the metadata as they are.  Two mints of different texts are never encoded alike,
but other metadata share encodings, such as a number and the text of its bytes.
-/

namespace ShardLedger

namespace Mint

theorem item_eq_ok_iff {mint : Mint} {item : Rlp.Item} :
    mint.item = .ok item ↔
      ∃ metadata, Rlp.NormalForm mint.metadata metadata ∧ item = mint.itemWith metadata := by
  rw [Mint.item]
  cases hmetadata : Rlp.normalize mint.metadata with
  | error flaw =>
      constructor
      · intro hitem
        cases hitem
      · rintro ⟨metadata, hform, -⟩
        rw [(Rlp.normalize_eq_ok_iff _ _).mpr hform] at hmetadata
        cases hmetadata
  | ok metadata =>
      have hform := (Rlp.normalize_eq_ok_iff _ _).mp hmetadata
      constructor
      · intro hitem
        exact ⟨metadata, hform, (Except.ok.inj hitem).symm⟩
      · rintro ⟨metadata', hform', rfl⟩
        rw [hform.unique hform']

theorem encode_eq_ok_iff {mint : Mint} {bytes : Bytes} :
    mint.encode = .ok bytes ↔
      ∃ metadata, Rlp.NormalForm mint.metadata metadata ∧
        (mint.itemWith metadata).encode = bytes := by
  rw [encode, map_eq_ok_iff]
  simp only [item_eq_ok_iff]
  constructor
  · rintro ⟨item, ⟨metadata, hform, rfl⟩, hbytes⟩
    exact ⟨metadata, hform, hbytes⟩
  · rintro ⟨metadata, hform, hbytes⟩
    exact ⟨_, ⟨metadata, hform, rfl⟩, hbytes⟩

theorem exists_encode {mint : Mint} (hmetadata : Rlp.Encodable mint.metadata) :
    ∃ bytes, mint.encode = .ok bytes := by
  obtain ⟨metadata, hnormal⟩ := hmetadata.exists_normalize_eq_ok
  exact ⟨_, encode_eq_ok_iff.mpr ⟨metadata, (Rlp.normalize_eq_ok_iff _ _).mp hnormal, rfl⟩⟩

/-- The fault is the flaw of the metadata. -/
theorem exists_flaw_of_unencodable {mint : Mint} (hmetadata : Rlp.Unencodable mint.metadata) :
    ∃ flaw, Rlp.encode mint.metadata = .error flaw ∧
      mint.encode = .error (.malformed (.rlp flaw)) := by
  cases hnormal : Rlp.normalize mint.metadata with
  | error flaw =>
      refine ⟨flaw, ?_, ?_⟩
      · rw [Rlp.encode, hnormal]
        rfl
      · rw [encode, item, hnormal]
        rfl
  | ok metadata => exact absurd hnormal (hmetadata.normalize_ne_ok metadata)

/-- Two mints are the same, but for their metadata and the network of the registrar's address. -/
def AgreeBesidesMetadata (mint other : Mint) : Prop :=
  mint.Agree { other with metadata := mint.metadata }

theorem itemWith_eq_iff_agree {mint other : Mint} {metadata metadata' : Rlp.Item} :
    mint.itemWith metadata = other.itemWith metadata' ↔
      metadata = metadata' ∧ mint.AgreeBesidesMetadata other := by
  rw [itemWith_eq_iff]
  constructor
  · rintro ⟨hnetwork, hshard, hworld, hmetadata, houtput, hregistrar, hnonce⟩
    exact ⟨hmetadata, hnetwork, hshard, hworld, rfl, houtput, hregistrar, hnonce⟩
  · rintro ⟨hmetadata, hnetwork, hshard, hworld, -, houtput, hregistrar, hnonce⟩
    exact ⟨hnetwork, hshard, hworld, hmetadata, houtput, hregistrar, hnonce⟩

/-- Mints are encoded alike exactly when their metadata share a normal form and they agree in
everything else. -/
theorem encode_eq_ok_iff_agree {mint other : Mint} {bytes : Bytes}
    (hencode : mint.encode = .ok bytes) (hlength : bytes.length < 2 ^ 64) :
    other.encode = .ok bytes ↔
      (∃ item, Rlp.NormalForm mint.metadata item ∧ Rlp.NormalForm other.metadata item) ∧
        mint.AgreeBesidesMetadata other := by
  obtain ⟨metadata, hform, rfl⟩ := encode_eq_ok_iff.mp hencode
  constructor
  · intro hother
    obtain ⟨metadata', hform', hsame⟩ := encode_eq_ok_iff.mp hother
    have hitems := (Rlp.Item.encode_inj hlength).mp hsame.symm
    obtain ⟨rfl, hagree⟩ := itemWith_eq_iff_agree.mp hitems
    exact ⟨⟨metadata, hform, hform'⟩, hagree⟩
  · rintro ⟨⟨item, hshared, hshared'⟩, hagree⟩
    obtain rfl := hform.unique hshared
    have hitems : mint.itemWith metadata = other.itemWith metadata :=
      itemWith_eq_iff_agree.mpr ⟨rfl, hagree⟩
    exact encode_eq_ok_iff.mpr ⟨metadata, hshared', by rw [hitems]⟩

/-- Texts tell mints apart. -/
theorem encode_ne_of_text {mint other : Mint} {bytes : Bytes} (hencode : mint.encode = .ok bytes)
    (hlength : bytes.length < 2 ^ 64) (htext : mint.IsText) (hother : other.IsText)
    (hdiffer : mint.metadata ≠ other.metadata) : other.encode ≠ .ok bytes := by
  intro hsame
  obtain ⟨⟨item, hform, hform'⟩, -⟩ := (encode_eq_ok_iff_agree hencode hlength).mp hsame
  obtain ⟨text, htext⟩ := htext
  obtain ⟨text', htext'⟩ := hother
  rw [htext] at hform
  rw [htext'] at hform'
  have hitems : Rlp.Item.text text = .text text' :=
    (Rlp.NormalForm.text text).unique hform |>.trans (hform'.unique (.text text'))
  rw [htext, htext', Rlp.Item.text_inj.mp hitems] at hdiffer
  exact hdiffer rfl

theorem metadata_of_ofDatum {d : Datum} {mint : Mint} (hread : ofDatum d = .ok mint) :
    ∃ body, d.fieldOr "data" d = .ok body ∧ body.field "metadata" = .ok mint.metadata := by
  simp only [ofDatum, bind_eq_ok_iff] at hread
  obtain ⟨body, hbody, _, -, _, -, _, -, _, -, _, -, _, -, _, -, _, -, metadata, hmetadata, _, -, _,
    -, _, -, _, -, _, -, _, -, _, -, _, -, _, -, hbuild⟩ := hread
  obtain ⟨-, -, -, hsame, -, -, -⟩ := build_eq_ok_iff.mp hbuild
  rw [← hsame]
  exact ⟨body, hbody, hmetadata⟩

/-- Any metadata are read, and as they are. -/
theorem governs_metadata :
    Governs "metadata" (fun body => ofDatum (enveloped body)) (fun mint => mint.toDatum.field "data")
      (fun value => .ok value) some (fun value mint => { mint with metadata := value }) := by
  have henveloped : ∀ d d', (enveloped d).fieldOr "data" d' = .ok d := fun d d' => rfl
  apply governs_of_put
  · intro fields mint hread value
    simp only [ofDatum, henveloped, ok_bind, bind_eq_ok_iff] at hread
    obtain ⟨_, houtput, _, hopen, _, hregistrar, _, hnetwork, _, hshard, shardId, hshardId, _,
      hworld, worldId, hworldId, metadata, -, _, hhash, lockScriptHash, hlockScriptHash, _, hps, ps,
      hparameters, number, hnumber, amount, hamount, registrar, haddress, _, hcount, nonce, hnonce,
      hbuild⟩ := hread
    -- The other fields are read as before, since no name of theirs is `metadata`.
    simp (disch := decide) only [ofDatum, henveloped, ok_bind, Datum.field_put_self,
      Datum.field_put_of_ne, Datum.fieldOr_put_of_ne, Datum.optional_put_of_ne, houtput, hopen,
      hregistrar, hnetwork, hshard, hshardId, hworld, hworldId, hhash, hlockScriptHash, hps,
      hparameters, hnumber, hamount, haddress, hcount, hnonce]
    obtain ⟨rfl, hshardSame, hworldSame, -, hsame, hregistrarSame, hnonceSame⟩ :=
      build_eq_ok_iff.mp hbuild
    exact build_eq_ok_iff.mpr
      ⟨rfl, hshardSame, hworldSame, rfl, hsame, hregistrarSame, hnonceSame⟩
  · intro value mint
    rfl

/-- Mints that are encoded alike share their hash and, in one shard and world, their type. -/
theorem same_type_of_encode_eq {mint other : Mint} (hencode : other.encode = mint.encode)
    (hagree : mint.AgreeBesidesMetadata other) :
    other.hash = mint.hash ∧ other.assetType = mint.assetType := by
  have hhash : other.hash = mint.hash := by rw [hash, hash, hencode]
  have hshard : mint.shardId = other.shardId := hagree.shardId
  have hworld : mint.worldId = other.worldId := hagree.worldId
  refine ⟨hhash, ?_⟩
  rw [assetType, assetType, hhash, hshard, hworld]

end Mint

namespace Transaction

/-- The encoding of a transaction. -/
def encode (transaction : Transaction) : Except Fault Bytes :=
  transaction.item.map Rlp.Item.encode

theorem mint_of_ofDatum {d : Datum} {m : Mint} (hread : ofDatum d = .ok (mint m)) :
    Mint.ofDatum d = .ok m := by
  rw [ofDatum] at hread
  obtain ⟨type, -, hread⟩ := bind_eq_ok_iff.mp hread
  split at hread
  · obtain ⟨m', hmint, hsame⟩ := bind_eq_ok_iff.mp hread
    cases hsame
    exact hmint
  · split at hread
    · obtain ⟨t, -, hsame⟩ := bind_eq_ok_iff.mp hread
      cases hsame
    · cases hread

theorem exists_encode_iff {transaction : Transaction} :
    (∃ bytes, transaction.encode = .ok bytes) ↔
      ∀ m, transaction = .mint m → Rlp.Encodable m.metadata := by
  cases transaction with
  | transfer t =>
      refine ⟨fun _ m hmint => ?_, fun _ => ⟨_, rfl⟩⟩
      cases hmint
  | mint m =>
      constructor
      · rintro ⟨bytes, hencode⟩ m' hmint
        cases hmint
        rcases Rlp.encodable_or_unencodable m.metadata with hmetadata | hmetadata
        · exact hmetadata
        · obtain ⟨flaw, -, hfault⟩ := Mint.exists_flaw_of_unencodable hmetadata
          have hencode' : m.encode = .ok bytes := hencode
          rw [hfault] at hencode'
          cases hencode'
      · intro hmetadata
        exact Mint.exists_encode (hmetadata m rfl)

/-- The only fault is the one of metadata without an encoding. -/
theorem flaw_of_encode {transaction : Transaction} {fault : Fault}
    (hfault : transaction.encode = .error fault) :
    ∃ m flaw, transaction = .mint m ∧ Rlp.Unencodable m.metadata ∧
      Rlp.encode m.metadata = .error flaw ∧ fault = .malformed (.rlp flaw) := by
  cases transaction with
  | transfer t => cases hfault
  | mint m =>
      have hfault' : m.encode = .error fault := hfault
      rcases Rlp.encodable_or_unencodable m.metadata with hmetadata | hmetadata
      · obtain ⟨bytes, hencode⟩ := Mint.exists_encode hmetadata
        rw [hencode] at hfault'
        cases hfault'
      · obtain ⟨flaw, hflaw, hencode⟩ := Mint.exists_flaw_of_unencodable hmetadata
        rw [hencode] at hfault'
        cases hfault'
        exact ⟨m, flaw, rfl, hmetadata, hflaw, rfl⟩

/-- A transaction that was read can be encoded, unless it is a mint whose metadata cannot.  Reading
takes any metadata as they are.  Mints are encoded alike when their metadata share a normal form,
which different texts never do, and they agree in everything else. -/
theorem encoding_hinges_on_metadata (d : Datum) :
    (∀ transaction, ofDatum d = .ok transaction →
      ((∃ bytes, transaction.encode = .ok bytes) ↔
        ∀ m, transaction = .mint m → Rlp.Encodable m.metadata) ∧
      ∀ fault, transaction.encode = .error fault →
        ∃ m flaw, transaction = .mint m ∧ Rlp.Unencodable m.metadata ∧
          Rlp.encode m.metadata = .error flaw ∧ fault = .malformed (.rlp flaw)) ∧
    (∀ m, ofDatum d = .ok (.mint m) →
      (∃ body, d.fieldOr "data" d = .ok body ∧ body.field "metadata" = .ok m.metadata) ∧
      ∀ bytes, m.encode = .ok bytes → bytes.length < 2 ^ 64 →
        ∀ d' m', ofDatum d' = .ok (.mint m') →
          (m'.encode = .ok bytes ↔
            (∃ item, Rlp.NormalForm m.metadata item ∧ Rlp.NormalForm m'.metadata item) ∧
              m.AgreeBesidesMetadata m') ∧
          (m'.encode = .ok bytes → m'.hash = m.hash ∧ m'.assetType = m.assetType) ∧
          (m.IsText → m'.IsText → m.metadata ≠ m'.metadata → m'.encode ≠ .ok bytes)) ∧
    Governs "metadata" (fun body => Mint.ofDatum (Mint.enveloped body))
      (fun m => m.toDatum.field "data") (fun value => .ok value) some
      (fun value m => { m with metadata := value }) := by
  refine ⟨?_, ?_, Mint.governs_metadata⟩
  · intro transaction _
    exact ⟨exists_encode_iff, fun fault => flaw_of_encode⟩
  · intro m hread
    refine ⟨Mint.metadata_of_ofDatum (mint_of_ofDatum hread), ?_⟩
    intro bytes hencode hlength d' m' _
    have hiff : m'.encode = .ok bytes ↔ _ := Mint.encode_eq_ok_iff_agree hencode hlength
    refine ⟨hiff, ?_, Mint.encode_ne_of_text hencode hlength⟩
    intro hencode'
    exact Mint.same_type_of_encode_eq (hencode'.trans hencode.symm) (hiff.mp hencode').2

/-- A mint of one unit with the given metadata. -/
def mintOf (metadata : Datum) : Mint :=
  ⟨.standard, 0, 0, metadata, ⟨.zero 32, [], some ⟨1, Nat.one_pos⟩⟩, none, 0⟩

/-- A mint is read whose metadata are `null` but cannot be encoded, and a mint is read whose
metadata are a number but has the hash and the type of one with a text. -/
theorem ofDatum_uncheckedMetadata :
    ofDatum (mintOf .null).toDatum = .ok (.mint (mintOf .null)) ∧
      (mintOf .null).encode = .error (.malformed (.rlp (.notEncodable "NoneType"))) ∧
      ofDatum (mintOf (.int 65)).toDatum = .ok (.mint (mintOf (.int 65))) ∧
      ofDatum (mintOf (.text "A")).toDatum = .ok (.mint (mintOf (.text "A"))) ∧
      (mintOf (.int 65)).metadata ≠ (mintOf (.text "A")).metadata ∧
      (∃ bytes, (mintOf (.int 65)).encode = .ok bytes ∧ (mintOf (.text "A")).encode = .ok bytes) ∧
      (mintOf (.int 65)).hash = (mintOf (.text "A")).hash ∧
      (mintOf (.int 65)).assetType = (mintOf (.text "A")).assetType := by
  have hnumber : Rlp.NormalForm (mintOf (.int 65)).metadata (.bytes [65]) :=
    .int (by decide) (by decide)
  have htext : Rlp.NormalForm (mintOf (.text "A")).metadata (.bytes [65]) := .text "A"
  have hencode := Mint.encode_eq_ok_iff.mpr ⟨_, hnumber, rfl⟩
  have hencode' : (mintOf (.text "A")).encode = .ok _ := Mint.encode_eq_ok_iff.mpr ⟨_, htext, rfl⟩
  have hagree : (mintOf (.text "A")).AgreeBesidesMetadata (mintOf (.int 65)) :=
    ⟨rfl, rfl, rfl, rfl, rfl, rfl, rfl⟩
  obtain ⟨hhash, htype⟩ := Mint.same_type_of_encode_eq (hencode.trans hencode'.symm) hagree
  refine ⟨ofDatum_toDatum (.mint (mintOf .null)), rfl, ofDatum_toDatum (.mint (mintOf (.int 65))),
    ofDatum_toDatum (.mint (mintOf (.text "A"))), ?_, ⟨_, hencode, hencode'⟩, hhash, htype⟩
  intro hsame
  cases hsame

end Transaction

end ShardLedger
