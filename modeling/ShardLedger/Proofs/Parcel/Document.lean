import ShardLedger.Proofs.Parcel.Encoding
import ShardLedger.Proofs.Transaction.Document

/-!
# Documents of parcels

Parcels write their nonce, fee and payment as decimal numerals, which only exist up to a
number of digits.  Within it, actions, parcels and signed parcels are read back from
their documents as they were; a signed parcel also has to have a hash.
-/

namespace ShardLedger

open Text.Numeral (digitLimit)

namespace Action

/-- The amount of a payment is short enough to be written. -/
def IsWritable : Action → Prop
  | payment _ amount => amount < 10 ^ digitLimit
  | _ => True

theorem addresses_read (xs : List PlatformAddress) : addresses (Datum.addresses xs) = .ok xs := by
  rw [addresses, Datum.addresses, Datum.elements_list, ok_bind]
  exact mapM_map_eq_ok fun address _ => address.parse_text

theorem exists_toDatum {action : Action} (hwritable : action.IsWritable) :
    ∃ d, action.toDatum = .ok d ∧ ofDatum d = .ok action := by
  cases action with
  | changeShardState transactions =>
      have hread := mapM_map_eq_ok fun transaction (_ : transaction ∈ transactions) =>
        transaction.ofDatum_toDatum
      refine ⟨_, rfl, ?_⟩
      simp [ofDatum, Datum.fieldOr, hread]
  | payment receiver amount =>
      have hshort : amount < 10 ^ digitLimit := hwritable
      obtain ⟨numeral, hnumeral, -, hread⟩ := Datum.exists_numeral hshort "amount"
      refine ⟨_, by rw [toDatum, hnumeral]; rfl, ?_⟩
      simp [ofDatum, Datum.fieldOr, hread]
  | setRegularKey key =>
      refine ⟨_, rfl, ?_⟩
      simp [ofDatum, Datum.fieldOr]
  | createShard =>
      refine ⟨_, rfl, ?_⟩
      simp [ofDatum, Datum.fieldOr]
  | setShardOwners shardId owners =>
      refine ⟨_, rfl, ?_⟩
      simp [ofDatum, Datum.fieldOr, addresses_read, buildShardOwners]
  | setShardUsers shardId users =>
      refine ⟨_, rfl, ?_⟩
      simp [ofDatum, Datum.fieldOr, addresses_read, buildShardUsers]

end Action

namespace Parcel

/-- The numbers of a parcel that are written as numerals are short enough. -/
structure IsWritable (parcel : Parcel) : Prop where
  nonce : ∀ n ∈ parcel.nonce, n < 10 ^ digitLimit
  fee : ∀ n ∈ parcel.fee, n < 10 ^ digitLimit
  action : parcel.action.IsWritable

theorem exists_numeralOrNull {number : Option Nat} (hnumber : ∀ n ∈ number, n < 10 ^ digitLimit)
    (name : String) :
    ∃ d, numeralOrNull number = .ok d ∧
      Datum.optionalUnsigned name (Datum.present? d) = .ok number := by
  cases number with
  | none => exact ⟨.null, rfl, rfl⟩
  | some n =>
      obtain ⟨d, hnumeral, hpresent, hread⟩ := Datum.exists_numeral (hnumber n rfl) name
      refine ⟨d, hnumeral, ?_⟩
      rw [hpresent, Datum.optionalUnsigned, hread]
      rfl

/-- A parcel is read back from its fields, whatever follows them. -/
theorem exists_fields {parcel : Parcel} (hwritable : parcel.IsWritable) :
    ∃ nonce fee action,
      parcel.fields = .ok [("nonce", nonce), ("fee", fee),
        ("networkId", .text parcel.networkId.text), ("action", action)] ∧
      ∀ more, ofDatum (.object (("nonce", nonce) :: ("fee", fee) ::
        ("networkId", .text parcel.networkId.text) :: ("action", action) :: more)) =
          .ok parcel := by
  obtain ⟨nonce, hnonce, hreadNonce⟩ := exists_numeralOrNull hwritable.nonce "nonce"
  obtain ⟨fee, hfee, hreadFee⟩ := exists_numeralOrNull hwritable.fee "fee"
  obtain ⟨action, haction, hreadAction⟩ := Action.exists_toDatum hwritable.action
  refine ⟨nonce, fee, action, ?_, ?_⟩
  · rw [fields, hnonce, hfee, haction]
    rfl
  · intro more
    simp [ofDatum, hreadNonce, hreadFee, hreadAction, NetworkId.ofDatum_text]

theorem exists_toDatum {parcel : Parcel} (hwritable : parcel.IsWritable) :
    ∃ d, parcel.toDatum = .ok d ∧ ofDatum d = .ok parcel := by
  obtain ⟨nonce, fee, action, hfields, hread⟩ := exists_fields hwritable
  refine ⟨_, ?_, hread []⟩
  rw [toDatum, hfields]
  rfl

end Parcel

namespace SignedParcel

/-- A signed parcel that can be written: its numbers and its signature fit, and it has a hash. -/
structure IsWritable (signed : SignedParcel) : Prop where
  unsigned : signed.unsigned.IsWritable
  settled : signed.unsigned.IsSettled
  text : signed.unsigned.IsText
  fits : signed.signature.Fits
  blockNumber : signed.placement.blockNumber.IsNumberOrNull
  parcelIndex : signed.placement.parcelIndex.IsNumberOrNull

/-- The block hash of a placement as a document. -/
theorem blockHash_read (blockHash : Option Digest) :
    (Datum.present? (match blockHash with
      | some hash => .hex hash.bytes
      | none => .null)).mapM (Datum.hexOf 32 "blockHash") = .ok blockHash := by
  cases blockHash with
  | none => rfl
  | some hash => simp

theorem exists_toDatum {signed : SignedParcel} (hwritable : signed.IsWritable) :
    ∃ d, signed.toDatum = .ok d ∧ ofDatum d = .ok signed := by
  obtain ⟨nonce, fee, action, hfields, hread⟩ := Parcel.exists_fields hwritable.unsigned
  obtain ⟨text, htext, hparse⟩ := hwritable.fits.exists_toText
  obtain ⟨bytes, hencode⟩ := exists_encode hwritable.settled hwritable.text hwritable.fits
  -- The hash is only written, so it is enough to know that there is one.
  have hhash : signed.hash = .ok (contentHash bytes) := by rw [hash, hencode, map_ok]
  obtain ⟨unsigned, signature, ⟨blockNumber, blockHash, parcelIndex⟩⟩ := signed
  obtain ⟨number, hnumber⟩ := hwritable.blockNumber.exists_eq
  obtain ⟨index, hindex⟩ := hwritable.parcelIndex.exists_eq
  simp only at hfields htext hparse hread hnumber hindex
  subst hnumber hindex
  refine ⟨_, by rw [toDatum, hfields, htext, hhash, ok_bind, ok_bind, ok_bind]; rfl, ?_⟩
  simp only [List.cons_append, List.nil_append, ofDatum, hread, hparse, ok_bind, pure_eq_ok,
    Datum.optionalUnsigned_numberOrNull, Datum.optional_cons, Datum.present?_text, String.reduceEq,
    if_false, if_true]
  exact bind_eq_ok_iff.mpr ⟨blockHash, blockHash_read blockHash, rfl⟩

end SignedParcel

/-! ## The whole data model -/

/-- Everything that is written as a document is read back from it as it was: the parts of a
transaction always, a scheme with an amount that can be read, and actions and parcels whenever
they can be written, which the bounds on their numbers guarantee.  The addresses in them are
written as the text that they were read from.  Every text in them is made of characters: nothing
is said of one with half of a surrogate pair in it. -/
theorem documents_read_back :
    (∀ point : OutPoint, OutPoint.ofDatum point.toDatum = .ok point) ∧
    (∀ entry : Entry, Entry.ofDatum entry.toDatum = .ok entry) ∧
    (∀ output : Output, Output.ofDatum output.toDatum = .ok output) ∧
    (∀ transfer : Transfer, Transfer.ofDatum transfer.toDatum = .ok transfer) ∧
    (∀ mint : Mint, Mint.ofDatum mint.toDatum = .ok mint) ∧
    (∀ transaction : Transaction,
      Transaction.ofDatum transaction.toDatum = .ok transaction) ∧
    (∀ asset : Asset, Asset.ofDatum asset.toDatum = .ok asset) ∧
    (∀ scheme : AssetScheme, scheme.amount.IsNumberOrNull →
      AssetScheme.ofDatum scheme.toDatum = .ok scheme) ∧
    (∀ action : Action, action.IsWritable →
      ∃ d, action.toDatum = .ok d ∧ Action.ofDatum d = .ok action) ∧
    (∀ parcel : Parcel, parcel.IsWritable →
      ∃ d, parcel.toDatum = .ok d ∧ Parcel.ofDatum d = .ok parcel) ∧
    (∀ signed : SignedParcel, signed.IsWritable →
      ∃ d, signed.toDatum = .ok d ∧ SignedParcel.ofDatum d = .ok signed) ∧
    (∀ expected s address, PlatformAddress.parse expected (.text s) = .ok address →
      address.toText = s) :=
  ⟨OutPoint.ofDatum_toDatum, Entry.ofDatum_toDatum, Output.ofDatum_toDatum,
    Transfer.ofDatum_toDatum, Mint.ofDatum_toDatum, Transaction.ofDatum_toDatum,
    Asset.ofDatum_toDatum, fun _ => AssetScheme.ofDatum_toDatum, fun _ => Action.exists_toDatum,
    fun _ => Parcel.exists_toDatum, fun _ => SignedParcel.exists_toDatum,
    fun _ _ _ => PlatformAddress.toText_of_parse⟩

/-- A scheme of five units. -/
def fiveUnits : AssetScheme :=
  ⟨.zero 32, .text "", .int 5, none, .text "tc"⟩

/-- A payment of three units in the seventh block, with a made-up signature. -/
def threeUnitsPaid : SignedParcel where
  unsigned := ⟨some 1, some 9, .standard, .payment (.zero 20) 3⟩
  signature := ⟨1, 1, 0⟩
  placement := ⟨.int 7, none, .null⟩

/-- The address of the account id of zeros. -/
def zeroAddress : PlatformAddress :=
  ⟨NetworkId.standard.toNetwork, .zero 20⟩

theorem documents_read_back_threeUnitsPaid :
    AssetScheme.ofDatum fiveUnits.toDatum = .ok fiveUnits ∧
      (∃ d, threeUnitsPaid.unsigned.action.toDatum = .ok d ∧
        Action.ofDatum d = .ok threeUnitsPaid.unsigned.action) ∧
      (∃ d, threeUnitsPaid.unsigned.toDatum = .ok d ∧
        Parcel.ofDatum d = .ok threeUnitsPaid.unsigned) ∧
      (∃ d, threeUnitsPaid.toDatum = .ok d ∧ SignedParcel.ofDatum d = .ok threeUnitsPaid) ∧
      zeroAddress.toText = "tccqqqqqqqqqqqqqqqqqqqqqqqqqqqqqqqqqqj5aqu5" := by
  obtain ⟨-, -, -, -, -, -, -, hscheme, haction, hparcel, hsigned, haddress⟩ :=
    documents_read_back
  have hsmall : ∀ n < 10, n < 10 ^ digitLimit := fun n hn =>
    Nat.lt_of_lt_of_le hn (Nat.le_self_pow (by decide) 10)
  have hpayment : threeUnitsPaid.unsigned.action.IsWritable := hsmall 3 (by decide)
  have hunsigned : threeUnitsPaid.unsigned.IsWritable := by
    refine ⟨?_, ?_, hpayment⟩
    · rintro n ⟨⟩
      exact hsmall 1 (by decide)
    · rintro n ⟨⟩
      exact hsmall 9 (by decide)
  have hplaced : threeUnitsPaid.IsWritable :=
    { unsigned := hunsigned
      settled := ⟨1, 9, rfl, rfl⟩
      text := trivial
      fits := ⟨by decide, by decide, by decide, by decide, by decide, by decide⟩
      blockNumber := .inr ⟨7, rfl⟩
      parcelIndex := .inl rfl }
  have hread : PlatformAddress.parse .null
      (.text "tccqqqqqqqqqqqqqqqqqqqqqqqqqqqqqqqqqqj5aqu5") = .ok zeroAddress := by
    decide +kernel
  exact ⟨hscheme fiveUnits (.inr ⟨5, rfl⟩), haction _ hpayment, hparcel _ hunsigned,
    hsigned _ hplaced, haddress _ _ _ hread⟩

end ShardLedger
