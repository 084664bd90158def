import ShardLedger.Address.Transfer
import ShardLedger.Proofs.Address.Frame

/-!
# Spend conditions and their addresses

A spend condition has an address when it is a lock script hash without parameters or one
of the two standard locks of a key hash.  Its address on a network stands for the
condition again, and every text that is read as an address on a network is the address of
the condition that it stands for.
-/

namespace ShardLedger

theorem Script.payToKeyHash_ne_burnWithKeyHash : payToKeyHash ≠ burnWithKeyHash := by
  decide +kernel

/-- A network id is read from its own text and from nothing else. -/
theorem NetworkId.ofDatum_eq_ok_iff {d : Datum} {network : NetworkId} :
    ofDatum d = .ok network ↔ d = .text network.text := by
  constructor
  · intro hread
    unfold ofDatum at hread
    split at hread
    next s =>
      split at hread
      next network' hnetwork =>
        cases hread
        unfold ofText? at hnetwork
        split at hnetwork
        next =>
          cases hnetwork
          rfl
        next => cases hnetwork
      next => cases hread
    next => cases hread
  · rintro rfl
    exact ofDatum_text network

theorem AddressType.ofDatum_code (type : AddressType) : ofDatum (.int type.code) = .ok type := by
  cases type with
  | lockScriptHash => rfl
  | payToKey => rfl
  | burnWithKey => rfl

/-- The byte of a type is the only one that is read as the type. -/
theorem AddressType.eq_code_of_ofDatum {code : UInt8} {type : AddressType}
    (hread : ofDatum (.int code.toNat) = .ok type) : code = type.code.toUInt8 := by
  apply UInt8.toNat_inj.mp
  have htype : ofCode? code.toNat = some type := by
    unfold ofDatum at hread
    split at hread
    next type' htype =>
      cases hread
      exact htype
    next => cases hread
  unfold ofCode? at htype
  by_cases hzero : (code.toNat : Int) = 0
  · rw [if_pos hzero] at htype
    cases htype
    exact Int.ofNat_inj.mp hzero
  · rw [if_neg hzero] at htype
    by_cases hone : (code.toNat : Int) = 1
    · rw [if_pos hone] at htype
      cases htype
      exact Int.ofNat_inj.mp hone
    · rw [if_neg hone, Option.ite_none_right_eq_some] at htype
      obtain ⟨htwo, htype⟩ := htype
      cases htype
      exact Int.ofNat_inj.mp htwo

namespace TransferAddress

theorem payloadOf_eq_ok_iff {type : AddressType} {b : Bytes} {payload : Digest} :
    payloadOf type b = .ok payload ↔ b = payload.bytes := by
  rw [← FixedBytes.ofBytes?_eq_some_iff, payloadOf]
  cases FixedBytes.ofBytes? 32 b with
  | none => simp [refuse]
  | some payload' => simp

/-! ## Texts -/

/-- The text of an address is read as the address, on the expected network. -/
theorem parse_toText (expected : Datum) (address : TransferAddress) :
    parse expected (.text address.toText) =
      (Network.check expected address.network).map fun _ => address := by
  have hkind : Text.isLowered kind = true := by decide
  have hframe : AddressFrame.ofText address.toText = .ok ⟨address.network, kind,
      addressVersion :: address.type.code.toUInt8 :: address.payload.bytes⟩ :=
    AddressFrame.ofText_toText hkind
  have hcode : address.type.code.toUInt8.toNat = address.type.code := by
    cases address.type with
    | lockScriptHash => rfl
    | payToKey => rfl
    | burnWithKey => rfl
  have hpayload : payloadOf address.type address.payload.bytes = .ok address.payload :=
    payloadOf_eq_ok_iff.mpr rfl
  simp only [parse, AddressFrame.ofDatum, hframe, ok_bind, ne_eq, not_true_eq_false, if_false,
    hcode, AddressType.ofDatum_code, hpayload, pure_eq_ok]
  cases Network.check expected address.network with
  | error fault => rfl
  | ok => rfl

/-- A text that is read as an address is the text of the address. -/
theorem toText_of_parse {expected : Datum} {s : String} {address : TransferAddress}
    (hread : parse expected (.text s) = .ok address) : address.toText = s := by
  obtain ⟨frame, hframe, hread⟩ := bind_eq_ok_iff.mp hread
  split at hread
  next => cases hread
  next hkind =>
    obtain ⟨_, -, hread⟩ := bind_eq_ok_iff.mp hread
    split at hread
    next version code payload hbytes =>
      split at hread
      next => cases hread
      next hversion =>
        obtain ⟨type, htype, hread⟩ := bind_eq_ok_iff.mp hread
        obtain ⟨payload', hpayload, hread⟩ := bind_eq_ok_iff.mp hread
        cases hread
        rw [payloadOf_eq_ok_iff] at hpayload
        rw [AddressType.eq_code_of_ofDatum htype, not_not.mp hversion, hpayload] at hbytes
        rw [toText, ← hbytes, ← not_not.mp hkind]
        exact AddressFrame.toText_of_ofText hframe
    next => cases hread

/-! ## Conditions -/

/-- A type and a payload represent a condition exactly when their address stands for it. -/
theorem representation?_eq_some_iff {lockScriptHash : Bytes} {parameters : List Bytes}
    {address : TransferAddress} :
    representation? lockScriptHash parameters = some (address.type, address.payload.bytes) ↔
      address.condition.lockScriptHash.bytes = lockScriptHash ∧
        address.condition.parameters = parameters := by
  obtain ⟨network, type, payload⟩ := address
  have hlength : ¬payload.bytes.length ≠ 32 := not_not.mpr payload.length_bytes
  constructor
  · intro hrepresented
    unfold representation? at hrepresented
    split at hrepresented
    next =>
      cases hrepresented
      exact ⟨rfl, rfl⟩
    next parameter =>
      rw [Option.ite_none_left_eq_some] at hrepresented
      obtain ⟨-, hrepresented⟩ := hrepresented
      by_cases hpay : lockScriptHash = Script.payToKeyHash.bytes
      · rw [if_pos hpay] at hrepresented
        cases hrepresented
        exact ⟨hpay.symm, rfl⟩
      · rw [if_neg hpay, Option.ite_none_right_eq_some] at hrepresented
        obtain ⟨hburn, hrepresented⟩ := hrepresented
        cases hrepresented
        exact ⟨hburn.symm, rfl⟩
    next => cases hrepresented
  · rintro ⟨rfl, rfl⟩
    cases type with
    | lockScriptHash => rfl
    | payToKey =>
        rw [condition, representation?, if_neg hlength, if_pos rfl]
    | burnWithKey =>
        have hother : Script.burnWithKeyHash.bytes ≠ Script.payToKeyHash.bytes := fun hsame =>
          Script.payToKeyHash_ne_burnWithKeyHash (FixedBytes.ext hsame.symm)
        rw [condition, representation?, if_neg hlength, if_neg hother, if_pos rfl]

/-- The address of a condition on a network is the one that stands for it there. -/
theorem ofCondition_eq_ok_iff {lockScriptHash : Bytes} {parameters : List Bytes} {network : Datum}
    {address : TransferAddress} :
    ofCondition lockScriptHash parameters network = .ok address ↔
      (∃ id, NetworkId.ofDatum network = .ok id ∧ address.network = id.toNetwork) ∧
        address.condition.lockScriptHash.bytes = lockScriptHash ∧
        address.condition.parameters = parameters := by
  rw [← representation?_eq_some_iff, ofCondition]
  cases representation? lockScriptHash parameters with
  | none => simp [refuse]
  | some represented =>
      obtain ⟨type, payload⟩ := represented
      simp only [ofPayload, AddressType.ofDatum_code, bind_eq_ok_iff, ok_bind, pure_eq_ok,
        payloadOf_eq_ok_iff, Except.ok.injEq, Option.some.injEq, Prod.mk.injEq]
      constructor
      · rintro ⟨id, hid, payload', hpayload, rfl⟩
        exact ⟨⟨id, hid, rfl⟩, rfl, hpayload⟩
      · rintro ⟨⟨id, hid, hnetwork⟩, rfl, hpayload⟩
        exact ⟨id, hid, address.payload, hpayload, by rw [← hnetwork]⟩

/-- What has an address: a lock script hash without parameters, or a standard lock of one hash. -/
def HasAddress (lockScriptHash : Bytes) (parameters : List Bytes) : Prop :=
  parameters = [] ∧ lockScriptHash.length = 32 ∨
    ∃ parameter, parameters = [parameter] ∧ parameter.length = 32 ∧
      (lockScriptHash = Script.payToKeyHash.bytes ∨ lockScriptHash = Script.burnWithKeyHash.bytes)

theorem hasAddress_iff (network : Network) {lockScriptHash : Bytes} {parameters : List Bytes} :
    HasAddress lockScriptHash parameters ↔
      ∃ address : TransferAddress, address.network = network ∧
        address.condition.lockScriptHash.bytes = lockScriptHash ∧
        address.condition.parameters = parameters := by
  constructor
  · rintro (⟨rfl, hlength⟩ | ⟨parameter, rfl, hlength, hash | hash⟩)
    · exact ⟨⟨network, .lockScriptHash, ⟨lockScriptHash, hlength⟩⟩, rfl, rfl, rfl⟩
    · exact ⟨⟨network, .payToKey, ⟨parameter, hlength⟩⟩, rfl, hash.symm, rfl⟩
    · exact ⟨⟨network, .burnWithKey, ⟨parameter, hlength⟩⟩, rfl, hash.symm, rfl⟩
  · rintro ⟨⟨network', type, payload⟩, -, rfl, rfl⟩
    cases type with
    | lockScriptHash => exact .inl ⟨rfl, payload.length_bytes⟩
    | payToKey => exact .inr ⟨payload.bytes, rfl, payload.length_bytes, .inl rfl⟩
    | burnWithKey => exact .inr ⟨payload.bytes, rfl, payload.length_bytes, .inr rfl⟩

end TransferAddress

/-! ## The two directions -/

/-- The text of a condition on a network is the text of the address that stands for it. -/
theorem formatAddress_eq_ok_iff {lockScriptHash : Bytes} {parameters : List Bytes}
    {network : Datum} {text : String} :
    formatAddress lockScriptHash parameters network = .ok text ↔
      ∃ (id : NetworkId) (address : TransferAddress), NetworkId.ofDatum network = .ok id ∧
        address.network = id.toNetwork ∧
        address.condition.lockScriptHash.bytes = lockScriptHash ∧
        address.condition.parameters = parameters ∧ address.toText = text := by
  simp only [formatAddress, bind_eq_ok_iff, TransferAddress.ofCondition_eq_ok_iff, pure_eq_ok,
    Except.ok.injEq]
  constructor
  · rintro ⟨address, ⟨⟨id, hid, hnetwork⟩, hhash, hparameters⟩, htext⟩
    exact ⟨id, address, hid, hnetwork, hhash, hparameters, htext⟩
  · rintro ⟨id, address, hid, hnetwork, hhash, hparameters, htext⟩
    exact ⟨address, ⟨⟨id, hid, hnetwork⟩, hhash, hparameters⟩, htext⟩

theorem exists_formatAddress_iff {lockScriptHash : Bytes} {parameters : List Bytes}
    {network : Datum} :
    (∃ text, formatAddress lockScriptHash parameters network = .ok text) ↔
      (∃ id, NetworkId.ofDatum network = .ok id) ∧
        TransferAddress.HasAddress lockScriptHash parameters := by
  constructor
  · rintro ⟨text, htext⟩
    obtain ⟨id, address, hid, -, hhash, hparameters, -⟩ := formatAddress_eq_ok_iff.mp htext
    have hhas : TransferAddress.HasAddress lockScriptHash parameters :=
      (TransferAddress.hasAddress_iff address.network).mpr ⟨address, rfl, hhash, hparameters⟩
    exact ⟨⟨id, hid⟩, hhas⟩
  · rintro ⟨⟨id, hid⟩, hhas⟩
    obtain ⟨address, hnetwork, hhash, hparameters⟩ :=
      (TransferAddress.hasAddress_iff id.toNetwork).mp hhas
    exact ⟨address.toText,
      formatAddress_eq_ok_iff.mpr ⟨id, address, hid, hnetwork, hhash, hparameters, rfl⟩⟩

namespace Network

@[simp]
theorem check_null (actual : Network) : check .null actual = .ok () := if_pos (.inl rfl)

@[simp]
theorem check_text (actual : Network) : check (.text actual.text) actual = .ok () :=
  if_pos (.inr rfl)

theorem check_eq_error {expected : Datum} {actual : Network} (hnull : expected ≠ .null)
    (hother : expected ≠ .text actual.text) :
    check expected actual = .error (.networkMismatch expected actual.text) :=
  if_neg (not_or_intro hnull hother)

end Network

/-- The text of an address is resolved to the condition that the address stands for. -/
theorem AddressInput.resolve_toText (expected : Datum) (address : TransferAddress) :
    (written (.text address.toText)).resolve expected =
      (Network.check expected address.network).map fun _ => address.condition := by
  simp only [resolve, TransferAddress.parse_toText]
  cases Network.check expected address.network with
  | error fault => rfl
  | ok => rfl

/-- Formatting and resolving are inverse to each other: exactly the conditions with an address
have a text, the text is resolved to the condition on its own network alone, and a text that is
read as an address is the text of what it is resolved to. -/
theorem TransferAddress.format_resolve_inverse :
    (∀ (lockScriptHash : Bytes) (parameters : List Bytes) (network : Datum),
      (∃ text, formatAddress lockScriptHash parameters network = .ok text) ↔
        (∃ id, NetworkId.ofDatum network = .ok id) ∧ HasAddress lockScriptHash parameters) ∧
    (∀ (lockScriptHash : Bytes) (parameters : List Bytes) (network : Datum) (text : String),
      formatAddress lockScriptHash parameters network = .ok text →
        (∃ condition : SpendCondition,
          (AddressInput.written (.text text)).resolve network = .ok condition ∧
            condition.lockScriptHash.bytes = lockScriptHash ∧
            condition.parameters = parameters) ∧
        ∀ expected, expected ≠ .null → expected ≠ network →
          ∃ actual, network = .text actual ∧
            (AddressInput.written (.text text)).resolve expected =
              .error (.networkMismatch expected actual)) ∧
    ∀ (expected : Datum) (text : String) (address : TransferAddress) (id : NetworkId),
      parse expected (.text text) = .ok address →
      NetworkId.ofDatum (.text address.network.text) = .ok id →
        ∃ condition, (AddressInput.written (.text text)).resolve expected = .ok condition ∧
          formatAddress condition.lockScriptHash.bytes condition.parameters
            (.text address.network.text) = .ok text := by
  refine ⟨fun _ _ _ => exists_formatAddress_iff, ?_, ?_⟩
  · intro lockScriptHash parameters network text hformat
    obtain ⟨id, address, hid, hnetwork, hhash, hparameters, rfl⟩ :=
      formatAddress_eq_ok_iff.mp hformat
    have htext : network = .text address.network.text := by
      rw [hnetwork]
      exact NetworkId.ofDatum_eq_ok_iff.mp hid
    rw [htext]
    constructor
    · refine ⟨address.condition, ?_, hhash, hparameters⟩
      rw [AddressInput.resolve_toText, Network.check_text, map_ok]
    · intro expected hnull hother
      refine ⟨address.network.text, rfl, ?_⟩
      rw [AddressInput.resolve_toText, Network.check_eq_error hnull hother]
      rfl
  · intro expected text address id hread hid
    refine ⟨address.condition, ?_, ?_⟩
    · simp only [AddressInput.resolve, hread, ok_bind, pure_eq_ok]
    · refine formatAddress_eq_ok_iff.mpr ⟨id, address, hid, ?_, rfl, rfl, toText_of_parse hread⟩
      apply Network.ext_text
      exact Datum.text.inj (NetworkId.ofDatum_eq_ok_iff.mp hid)

/-- The address for burning with the key whose hash is zero. -/
def TransferAddress.zeroBurn : TransferAddress :=
  ⟨NetworkId.standard.toNetwork, .burnWithKey, ⟨List.replicate 32 0, List.length_replicate⟩⟩

theorem TransferAddress.format_resolve_inverse_zeroBurn :
    formatAddress Script.burnWithKeyHash.bytes [List.replicate 32 0] (.text "tc") =
        .ok zeroBurn.toText ∧
      (∃ condition : SpendCondition,
        (AddressInput.written (.text zeroBurn.toText)).resolve (.text "tc") = .ok condition ∧
          condition.lockScriptHash.bytes = Script.burnWithKeyHash.bytes ∧
          condition.parameters = [List.replicate 32 0]) ∧
      (∃ actual, Datum.text "tc" = .text actual ∧
        (AddressInput.written (.text zeroBurn.toText)).resolve (.text "cc") =
          .error (.networkMismatch (.text "cc") actual)) ∧
      ∃ condition,
        (AddressInput.written (.text zeroBurn.toText)).resolve .null = .ok condition ∧
          formatAddress condition.lockScriptHash.bytes condition.parameters (.text "tc") =
            .ok zeroBurn.toText := by
  have hformat : formatAddress Script.burnWithKeyHash.bytes [List.replicate 32 0] (.text "tc") =
      .ok zeroBurn.toText := by decide +kernel
  have hread : parse .null (.text zeroBurn.toText) = .ok zeroBurn := by decide +kernel
  obtain ⟨hcondition, hother⟩ := format_resolve_inverse.2.1 _ _ _ _ hformat
  refine ⟨hformat, hcondition, hother (.text "cc") (by decide) (by decide), ?_⟩
  exact format_resolve_inverse.2.2 .null _ zeroBurn NetworkId.standard hread (by decide)

end ShardLedger
