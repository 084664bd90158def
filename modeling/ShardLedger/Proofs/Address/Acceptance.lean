import ShardLedger.Proofs.Address.Transfer

/-!
# Addresses that can be read and addresses that can be built

Reading accepts the texts of all addresses and nothing else.  Building asks more of the
network than reading does: its characters must be ASCII characters.  So the addresses that
can be built are those among the readable ones whose network is written in ASCII.
-/

namespace ShardLedger

/-- The networks that are written in ASCII are those that network ids name. -/
theorem Network.isAscii_text_iff {network : Network} :
    Text.IsAscii network.text ↔ ∃ id : NetworkId, id.toNetwork = network := by
  constructor
  · intro hascii
    have hlowered : network.text.toList.all Text.isLoweredAscii = true := by
      refine List.all_eq_true.mpr fun c hmem => ?_
      have hc := List.all_eq_true.mp network.lowered c hmem
      rw [Text.isLoweredAscii, decide_eq_true (hascii c hmem), hc]
      rfl
    exact ⟨⟨network.text, network.length_text, hlowered⟩, Network.ext_text rfl⟩
  · rintro ⟨id, rfl⟩ c hmem
    have hc := List.all_eq_true.mp id.loweredAscii c hmem
    rw [Text.isLoweredAscii, Bool.and_eq_true] at hc
    exact of_decide_eq_true hc.1

namespace PlatformAddress

theorem parse_eq_ok_iff {s : String} {address : PlatformAddress} :
    parse .null (.text s) = .ok address ↔ address.toText = s := by
  constructor
  · exact toText_of_parse
  · rintro rfl
    exact parse_text address

/-- What can be built is on a network that a network id names. -/
theorem exists_ofAccountId_iff {address : PlatformAddress} :
    (∃ (accountId : Bytes) (network : Datum), ofAccountId accountId network = .ok address) ↔
      Text.IsAscii address.network.text := by
  rw [Network.isAscii_text_iff]
  constructor
  · rintro ⟨accountId, network, hbuilt⟩
    obtain ⟨id, -, hbuilt⟩ := bind_eq_ok_iff.mp hbuilt
    obtain ⟨account, -, hbuilt⟩ := bind_eq_ok_iff.mp hbuilt
    cases hbuilt
    exact ⟨id, rfl⟩
  · rintro ⟨id, hnetwork⟩
    refine ⟨address.accountId.bytes, .text id.text, ?_⟩
    simp only [ofAccountId, NetworkId.ofDatum_text, Datum.sized_bytes, ok_bind, pure_eq_ok,
      hnetwork]

end PlatformAddress

namespace TransferAddress

theorem parse_eq_ok_iff {s : String} {address : TransferAddress} :
    parse .null (.text s) = .ok address ↔ address.toText = s := by
  constructor
  · exact toText_of_parse
  · rintro rfl
    rw [parse_toText, Network.check_null, map_ok]

theorem exists_ofPayload_iff {address : TransferAddress} :
    (∃ (type : Datum) (payload : Bytes) (network : Datum),
      ofPayload type payload network = .ok address) ↔ Text.IsAscii address.network.text := by
  rw [Network.isAscii_text_iff]
  constructor
  · rintro ⟨type, payload, network, hbuilt⟩
    obtain ⟨id, -, hbuilt⟩ := bind_eq_ok_iff.mp hbuilt
    obtain ⟨type', -, hbuilt⟩ := bind_eq_ok_iff.mp hbuilt
    obtain ⟨payload', -, hbuilt⟩ := bind_eq_ok_iff.mp hbuilt
    cases hbuilt
    exact ⟨id, rfl⟩
  · rintro ⟨id, hnetwork⟩
    refine ⟨.int address.type.code, address.payload.bytes, .text id.text, ?_⟩
    have hpayload : payloadOf address.type address.payload.bytes = .ok address.payload :=
      payloadOf_eq_ok_iff.mpr rfl
    simp only [ofPayload, NetworkId.ofDatum_text, AddressType.ofDatum_code, hpayload, ok_bind,
      pure_eq_ok, hnetwork]

end TransferAddress

/-- An address is read from its own text and from no other, whatever its network is.  The text is
one that can be built exactly when the network is written in ASCII. -/
theorem addresses_read_and_built (s : String) :
    (∀ address : PlatformAddress,
      (PlatformAddress.parse .null (.text s) = .ok address ↔ address.toText = s) ∧
      ((∃ (accountId : Bytes) (network : Datum),
        PlatformAddress.ofAccountId accountId network = .ok address ∧ address.toText = s) ↔
          PlatformAddress.parse .null (.text s) = .ok address ∧
            Text.IsAscii address.network.text)) ∧
    ∀ address : TransferAddress,
      (TransferAddress.parse .null (.text s) = .ok address ↔ address.toText = s) ∧
      ((∃ (type : Datum) (payload : Bytes) (network : Datum),
        TransferAddress.ofPayload type payload network = .ok address ∧ address.toText = s) ↔
          TransferAddress.parse .null (.text s) = .ok address ∧
            Text.IsAscii address.network.text) := by
  refine ⟨fun address => ⟨PlatformAddress.parse_eq_ok_iff, ?_⟩,
    fun address => ⟨TransferAddress.parse_eq_ok_iff, ?_⟩⟩
  · rw [PlatformAddress.parse_eq_ok_iff, ← PlatformAddress.exists_ofAccountId_iff]
    constructor
    · rintro ⟨accountId, network, hbuilt, htext⟩
      exact ⟨htext, accountId, network, hbuilt⟩
    · rintro ⟨htext, accountId, network, hbuilt⟩
      exact ⟨accountId, network, hbuilt, htext⟩
  · rw [TransferAddress.parse_eq_ok_iff, ← TransferAddress.exists_ofPayload_iff]
    constructor
    · rintro ⟨type, payload, network, hbuilt, htext⟩
      exact ⟨htext, type, payload, network, hbuilt⟩
    · rintro ⟨htext, type, payload, network, hbuilt⟩
      exact ⟨type, payload, network, hbuilt, htext⟩

/-- The account zero on a network that is not written in ASCII. -/
def PlatformAddress.accented : PlatformAddress :=
  ⟨⟨"éé", by decide, by decide +kernel⟩, .zero 20⟩

/-- Its text. -/
def PlatformAddress.accentedText : String :=
  "éécqqqqqqqqqqqqqqqqqqqqqqqqqqqqqqqqqqgq2cvv"

/-- The text is read, although no address that can be built has it. -/
theorem PlatformAddress.parse_accented :
    parse .null (.text accentedText) = .ok accented ∧
      ∀ (accountId : Bytes) (network : Datum) (address : PlatformAddress),
        ofAccountId accountId network = .ok address → address.toText ≠ accentedText := by
  have htext : accented.toText = accentedText := by decide +kernel
  have hread : parse .null (.text accentedText) = .ok accented := parse_eq_ok_iff.mpr htext
  refine ⟨hread, ?_⟩
  intro accountId network address hbuilt hsameText
  have hsame : address = accented := by
    have hread' := parse_eq_ok_iff.mpr hsameText
    rw [hread, Except.ok.injEq] at hread'
    exact hread'.symm
  have hascii : Text.IsAscii accented.network.text := by
    rw [← hsame]
    exact exists_ofAccountId_iff.mp ⟨accountId, network, hbuilt⟩
  exact absurd hascii (by decide)

end ShardLedger
